import SatScript.Expr.Elaboration
import SatScript.Proofs.Layout.Canonical
import SatScript.Proofs.Rename.Replacement
/-!
# SatScript — what a valid name is good for

A text is checked before it is given as a new name. What passes is read as
one atom, as any text of an atom is (`readAll_of_isAtomText`). It stays as it
is when comments are taken out just if it holds no semicolon, which a quoted
name may; a renaming to such a name is refused later on. And it is
elaborated as the variable that it is bound to, just if it is no truth value
that is bound to another sort than theirs: `true` and `false` are valid
names, though an atom of theirs is never looked up (`isValidName_usable`).
-/

namespace SatScript

/-- The text of an atom is read as that atom. -/
theorem readAll_of_isAtomText {text : String} (h : IsAtomText text.toList) (strict : Bool) :
    readAll strict text.toList = .ok [Form.ofText text] := by
  have hread := @Form.readAll_intercalate [' '] [Form.ofText text] strict
    (List.cons_ne_nil _ _) Form.blanks_space fun form hform => by
      rw [List.mem_singleton.1 hform, Form.ofText, Form.Writable]
      exact h
  have hchars : [' '].intercalate ([Form.ofText text].map Form.chars) = text.toList := by
    simp [Form.ofText, Form.chars]
  have hforms : Piece.forms false 0 [] (Form.pieces [] [' '] [Form.ofText text]) =
      [Form.ofText text] := by
    simp [Form.pieces, Form.ofText, Form.layout, Piece.forms, Layout.form]
  rw [← hchars, hread, hforms]

namespace Expr

variable {fractional : Bool} {scope : Scope BaseSort} {name : String} {sort : BaseSort}

/-- **A bound name is elaborated as its variable, unless it is a truth value**: that is
looked up nowhere. -/
theorem ofForm_atom_eq_ok_iff {start stop : Nat} (hnumeral : Numeral.startsNumeral name = false)
    (hbound : scope.lookup name = some sort) :
    ofForm fractional scope (.atom name start stop) = .ok (leaf name sort) ↔
      (name = "true" ∨ name = "false" → sort = .bool) := by
  rw [ofForm, ofAtom, hnumeral, if_neg Bool.false_ne_true, hbound]
  by_cases htruth : name = "true" ∨ name = "false"
  · rw [if_pos htruth]
    constructor
    · intro h _
      injection h with _ hexpr
      injection hexpr with hexpr
      injection hexpr with _ hsort
      exact hsort.symm
    · intro h
      rw [h htruth]
      rfl
  · rw [if_neg htruth]
    exact ⟨fun _ h => absurd h htruth, fun _ => rfl⟩

end Expr

namespace Renaming

variable {name : String}

/-- A valid name that holds a semicolon is quoted. -/
theorem exists_quoted_of_isValidName (h : isValidName name = true) (hsemi : ';' ∈ name.toList) :
    ∃ inner, '|' ∉ inner ∧ name.toList = quoted inner := by
  rcases of_isValidName h with hquoted | ⟨-, -, hletters⟩
  · exact hquoted
  · exact absurd rfl (hletters ';' hsemi).2.2.2.2

/-- **What a valid name is good for.** It is read as one atom. It stays as it is when
comments are taken out just if it holds no semicolon, which a quoted name may;
but no renaming gives such a name. Bound to a sort it is elaborated as that
variable, just if it is no truth value that is bound to another sort than
theirs. -/
theorem isValidName_usable (h : isValidName name = true) :
    (∀ strict, readAll strict name.toList = .ok [Form.ofText name]) ∧
      (Text.withoutComments name.toList = name.toList ↔ ';' ∉ name.toList) ∧
      (Text.blankedComments name.toList = name.toList ↔ ';' ∉ name.toList) ∧
      (';' ∈ name.toList → (∃ inner, '|' ∉ inner ∧ name.toList = quoted inner) ∧
        ∀ sources home offset outcome, Sources.rename sources home offset name ≠ .ok outcome) ∧
      ∀ fractional (scope : Scope BaseSort) start stop sort, scope.lookup name = some sort →
        (Expr.ofForm fractional scope (.atom name start stop) = .ok (.leaf name sort) ↔
          (name = "true" ∨ name = "false" → sort = .bool)) := by
  obtain ⟨hatom, -, hnumeral⟩ := isAtomText_of_isValidName h
  refine ⟨readAll_of_isAtomText hatom, Text.withoutComments_eq_self_iff,
    Text.blankedComments_eq_self_iff, fun hsemi => ⟨exists_quoted_of_isValidName h hsemi, ?_⟩,
    fun _ _ _ _ _ hbound => Expr.ofForm_atom_eq_ok_iff hnumeral hbound⟩
  intro sources home offset outcome hrename
  exact semicolon_not_mem_newName (made_of_rename hrename) hsemi

/-- A quoted name of several words. -/
theorem isValidName_usable_quoted :
    isValidName "|a (b) 1|" = true ∧
      (∀ strict, readAll strict "|a (b) 1|".toList = .ok [Form.ofText "|a (b) 1|"]) ∧
      Text.withoutComments "|a (b) 1|".toList = "|a (b) 1|".toList ∧
      Text.blankedComments "|a (b) 1|".toList = "|a (b) 1|".toList ∧
      ∀ fractional, Expr.ofForm fractional (Scope.empty.define "|a (b) 1|" .real)
        (.atom "|a (b) 1|" 0 9) = .ok (.leaf "|a (b) 1|" .real) := by
  have hvalid : isValidName "|a (b) 1|" = true := by decide
  obtain ⟨hread, hdeleted, hblanked, -, hvariable⟩ := isValidName_usable hvalid
  have hsemi : ';' ∉ "|a (b) 1|".toList := by decide
  refine ⟨hvalid, hread, hdeleted.2 hsemi, hblanked.2 hsemi, fun fractional => ?_⟩
  exact (hvariable fractional _ 0 9 .real (by simp)).2 (by decide)

/-- **Two kinds of valid names are not usable**: a truth value, to which a variable can
be renamed, and a quoted name with a semicolon. -/
theorem isValidName_unusable :
    isValidName "true" = true ∧
      (Scope.empty.define "true" BaseSort.real).lookup "true" = some .real ∧
      Expr.ofForm true (Scope.empty.define "true" .real) (.atom "true" 0 4) =
        .ok (.leaf "true" .bool) ∧
      (Sources.rename (Table.ofList [("a", "(declare-fun x () Real)(assert (> x 0))")])
        "a" 13 "true").map (·.sources.get? "a") =
          .ok (some "(declare-fun true () Real)(assert (> true 0))") ∧
      isValidName "|a;b|" = true ∧
      Text.withoutComments "|a;b|".toList = "|a".toList ∧
      Text.blankedComments "|a;b|".toList = "|a   ".toList := by
  refine ⟨by decide, by simp, rfl, ?_, by decide, by decide, by decide⟩
  simp only [Sources.rename, edited, Edit.applyAll, Edit.sorted_eq_insertionSort]
  decide +kernel

end Renaming

end SatScript
