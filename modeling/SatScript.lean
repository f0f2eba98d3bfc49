import SatScript.Main
import SatScript.Proofs.Diagnostic.Verbatim
import SatScript.Proofs.Edit.AtOnce
import SatScript.Proofs.Layout.Canonical
import SatScript.Proofs.Layout.Comments
import SatScript.Proofs.Layout.Descent
import SatScript.Proofs.Layout.Joined
import SatScript.Proofs.Layout.Respaced
import SatScript.Proofs.Layout.Stray
import SatScript.Proofs.Layout.Unclosed
import SatScript.Proofs.Program.ExitCode
import SatScript.Proofs.Program.Quiet
import SatScript.Proofs.Program.Reordered
import SatScript.Proofs.Program.Snapshot
import SatScript.Proofs.Rename.Fresh
import SatScript.Proofs.Rename.Outcome
import SatScript.Proofs.Rename.Undo
import SatScript.Proofs.Rename.ValidName
import SatScript.Proofs.Session.Ended
import SatScript.Proofs.Session.History
import SatScript.Proofs.Session.Located
import SatScript.Proofs.Session.Names
import SatScript.Proofs.Session.Relaxed
import SatScript.Proofs.Session.Script
import SatScript.Proofs.Session.Unknowns
import SatScript.Proofs.Session.Unused
import SatScript.Proofs.Settings.LineEnds
import SatScript.Proofs.Settings.Rendered
import SatScript.Proofs.Term.Assigned
import SatScript.Proofs.Term.Inlining
import SatScript.Proofs.Term.Lowering
import SatScript.Proofs.Term.Numeral
import SatScript.Proofs.Term.Shape
import SatScript.Proofs.Term.Sorting
import SatScript.Proofs.Text.Commented
