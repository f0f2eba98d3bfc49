import SatScript.Proofs.Layout.Pieces
import SatScript.Proofs.Session.Stepping
import SatScript.Session.Run
/-!
# SatScript — running a text that is laid out

A run reads a form, hands it to the session and goes on behind it. For a
text that is laid out as pieces that is one step a piece: a layout is a
form for the session (`runFrom_written`), a parenthesis that closes nothing
ends the run (`runFrom_stray`), and so does a list that is left open, if
that is to be reported (`runFrom_open`).
-/

namespace SatScript

namespace Session

variable {σ : Type} {options : Options} {session : Session σ} {offset forms : Nat}

/-! ## One piece -/

variable [Solver σ]

/-- What a run does once the session has taken a form. -/
def proceed (options : Options) (next : Cursor) (forms : Nat) :
    Session σ × Except Fault Status → Outcome σ
  | (session, .error fault) => ⟨session, forms, .error fault⟩
  | (session, .ok .terminated) => ⟨session, forms, .ok .exit⟩
  | (session, .ok .running) => runFrom options session next forms

variable (options session offset forms)

/-- A run takes the form that is read. -/
theorem runFrom_of_readOne {cursor : Cursor} {reading : Reading}
    (hrest : cursor.skipBlanks.rest ≠ [])
    (hone : cursor.readOne options.strictLists = .ok reading) :
    runFrom options session cursor forms =
      proceed options reading.next (forms + 1)
        (session.take options cursor.skipBlanks reading) := by
  rw [runFrom]
  split
  · rename_i offset heq
    rw [heq] at hrest
    exact absurd rfl hrest
  · rename_i offset c cs heq
    rw [← Cursor.readOne_skipBlanks, heq] at hone
    rw [heq]
    split
    · rename_i unclosed herror
      rw [hone] at herror
      cases herror
    · rename_i found hfound
      rw [hone] at hfound
      cases hfound
      split
      · rename_i session' fault htake
        rw [htake, proceed]
      · rename_i session' htake
        rw [htake, proceed]
      · rename_i session' htake
        rw [htake, proceed]

omit forms in
/-- The run goes on behind a form that ends further on. -/
theorem length_next_lt_of_readOne {cursor : Cursor} {reading : Reading} {session' : Session σ}
    (hrest : cursor.skipBlanks.rest ≠ [])
    (hone : cursor.readOne options.strictLists = .ok reading)
    (htake : session.take options cursor.skipBlanks reading = (session', .ok .running)) :
    reading.next.rest.length < cursor.rest.length := by
  obtain ⟨c, cs, hcs⟩ := List.exists_cons_of_ne_nil hrest
  have hbegin : cursor.skipBlanks = ⟨cursor.skipBlanks.offset, c :: cs⟩ := by rw [← hcs]
  rw [← Cursor.readOne_skipBlanks, hbegin] at hone
  rw [hbegin] at htake
  exact length_next_lt_of_take hbegin hone htake

/-- A run ends where nothing is left but blanks. -/
theorem runFrom_of_rest_eq_nil {cursor : Cursor} (hrest : cursor.skipBlanks.rest = []) :
    runFrom options session cursor forms = ⟨session, forms, .ok .endOfInput⟩ := by
  rw [runFrom]
  split
  · rfl
  · rename_i heq
    rw [heq] at hrest
    cases hrest

/-- A run ends at a list that the reader reports. -/
theorem runFrom_of_readOne_error {cursor : Cursor} {unclosed : Unclosed}
    (hrest : cursor.skipBlanks.rest ≠ [])
    (hone : cursor.readOne options.strictLists = .error unclosed) :
    runFrom options session cursor forms = ⟨session, forms, .error unclosed.fault⟩ := by
  rw [runFrom]
  split
  · rename_i offset heq
    rw [heq] at hrest
    exact absurd rfl hrest
  · rename_i offset c cs heq
    rw [← Cursor.readOne_skipBlanks, heq] at hone
    split
    · rename_i found hfound
      rw [hone] at hfound
      cases hfound
      rfl
    · rename_i reading hreading
      rw [hone] at hreading
      cases hreading

/-- A run ends where blanks are left only. -/
theorem runFrom_blanks {gap : List Char} (h : Blanks gap) :
    runFrom options session ⟨offset, gap⟩ forms = ⟨session, forms, .ok .endOfInput⟩ := by
  refine runFrom_of_rest_eq_nil options session forms ?_
  rw [Cursor.skipBlanks, ← List.append_nil gap, Cursor.skipFrom_blanks h]
  rfl

/-- **A layout is taken as its form**, and the run goes on behind it. What is
traced is the layout without the blanks before it. -/
theorem runFrom_written {layout : Layout} {rest before cs : List Char} {c : Char}
    (h : layout.Stands rest)
    (hopen : options.strictLists = true → layout.openAt? offset = none)
    (hbefore : Blanks before) (hc : Text.isBlank c = false)
    (hchars : layout.chars = before ++ c :: cs) :
    runFrom options session ⟨offset, layout.chars ++ rest⟩ forms =
      proceed options ⟨offset + Text.units layout.chars, rest⟩ (forms + 1)
        ((session.record options
          [.parsed (String.ofList (c :: cs)) (layout.form offset).render]).step options
            (layout.form offset)) := by
  have hskip : Cursor.skipBlanks ⟨offset, layout.chars ++ rest⟩ =
      ⟨offset + Text.units before, c :: cs ++ rest⟩ := by
    rw [Cursor.skipBlanks, hchars, List.append_assoc, Cursor.skipFrom_blanks hbefore,
      List.cons_append, Cursor.skipFrom, if_neg (by rw [hc]; exact Bool.false_ne_true)]
  have hupTo : (Cursor.skipBlanks ⟨offset, layout.chars ++ rest⟩).upTo
      ⟨offset + Text.units layout.chars, rest⟩ = c :: cs := by
    rw [hskip, Cursor.upTo, List.length_append, Nat.add_sub_cancel, List.take_left]
  rw [runFrom_of_readOne _ _ _ (by rw [hskip]; simp) (Cursor.readOne_layout h hopen), take,
    readingEvent, hupTo]

/-- A layout is taken as its form, whatever is traced. -/
theorem runFrom_form {layout : Layout} {rest : List Char} (h : layout.Stands rest)
    (hopen : options.strictLists = true → layout.openAt? offset = none) :
    ∃ event, runFrom options session ⟨offset, layout.chars ++ rest⟩ forms =
      proceed options ⟨offset + Text.units layout.chars, rest⟩ (forms + 1)
        ((session.record options [event]).step options (layout.form offset)) := by
  obtain ⟨before, c, cs, hbefore, hc, -, hchars⟩ := h.exists_begin
  exact ⟨_, runFrom_written options session offset forms h hopen hbefore hc hchars⟩

/-- **A parenthesis that closes nothing ends the run**: the empty atom, of which
nothing is traced, is no command. -/
theorem runFrom_stray {before : List Char} (rest : List Char) (h : Blanks before)
    (hrunning : session.status = .running) :
    runFrom options session ⟨offset, before ++ ')' :: rest⟩ forms =
      ⟨session.record options [.parsed "" ""], forms + 1,
        .error (.found (.shape (.atomForCommand ""))
          ⟨offset + Text.units before, offset + Text.units before⟩)⟩ := by
  have hskip : Cursor.skipBlanks ⟨offset, before ++ ')' :: rest⟩ =
      ⟨offset + Text.units before, ')' :: rest⟩ := by
    rw [Cursor.skipBlanks, Cursor.skipFrom_blanks h]
    rfl
  have hupTo : (Cursor.skipBlanks ⟨offset, before ++ ')' :: rest⟩).upTo
      ⟨offset + Text.units before, ')' :: rest⟩ = [] := by
    rw [hskip, Cursor.upTo, Nat.sub_self, List.take_zero]
  rw [runFrom_of_readOne _ _ _ (by rw [hskip]; simp) (Cursor.readOne_stray h), take,
    readingEvent, hupTo, step, status_record, hrunning]
  rfl

/-- **A list that is left open is reported**, if it is to be. -/
theorem runFrom_open {layout : Layout} {rest : List Char} (h : layout.Stands rest)
    (hstrict : options.strictLists = true) {start : Nat}
    (hopen : layout.openAt? offset = some start) :
    ∃ unclosed : Unclosed, runFrom options session ⟨offset, layout.chars ++ rest⟩ forms =
      ⟨session, forms, .error unclosed.fault⟩ := by
  obtain ⟨before, c, cs, hbefore, hc, -, hchars⟩ := h.exists_begin
  have hrest : (Cursor.skipBlanks ⟨offset, layout.chars ++ rest⟩).rest ≠ [] := by
    rw [hchars, List.append_assoc]
    exact @Cursor.rest_entering_ne_nil offset false _ _ _ hbefore hc
  exact ⟨_, runFrom_of_readOne_error options session forms hrest
    (hstrict ▸ @Cursor.readOne_open _ offset _ _ h hopen)⟩

end Session

end SatScript
