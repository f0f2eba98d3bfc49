import Mathlib.Data.List.Forall2
import SatScript.Proofs.Layout.Partition
import SatScript.Proofs.Layout.Tokens
/-!
# SatScript — what blanks between tokens do

A text is *well delimited* if every list and every quoted atom in it is
closed and no parenthesis closes nothing. Where blanks stand in such a text
should not matter, and it almost does not: writing its forms canonically
and reading them again gives the same forms, but for the lists between whose
parentheses stand blanks only (`same_respaced_iff`). Such a list holds the
empty atom, since a form is due behind the blanks, and is written as a list
that holds nothing. Without these atoms, which `solid` leaves out, the forms
are those that the tokens tell.
-/

namespace SatScript

namespace Form

/-! ## The empty atoms of forms -/

mutual

/-- The form without the empty atoms in it. -/
def solid : Form → Form
  | .atom text start stop => .atom text start stop
  | .list items start stop => .list (solidAll items) start stop

/-- The forms but for the empty atom, without the empty atoms in them. -/
def solidAll : List Form → List Form
  | [] => []
  | form :: forms => if form.isEmpty then solidAll forms else solid form :: solidAll forms

end

mutual

/-- The atoms that stay. -/
theorem leaves_solid : ∀ form : Form, form.isEmpty = false →
    leaves form.solid = (leaves form).filter (·.text != "")
  | .atom text start stop, h => by
    rw [isEmpty] at h
    simp [solid, leaves, bne, h]
  | .list items start stop, _ => leavesAll_solidAll items

theorem leavesAll_solidAll : ∀ forms : List Form,
    leavesAll (solidAll forms) = (leavesAll forms).filter (·.text != "")
  | [] => rfl
  | form :: forms => by
    rw [solidAll, leavesAll, List.filter_append, ← leavesAll_solidAll forms]
    split
    · rename_i hempty
      cases form with
      | list items start stop => cases hempty
      | atom text start stop =>
        rw [isEmpty] at hempty
        simp [leaves, bne, hempty]
    · rename_i hempty
      rw [leavesAll, leaves_solid form (by simpa using hempty)]

end

mutual

/-- Where no atom is empty, nothing is left out. -/
theorem solid_eq_self : ∀ form : Form, (∀ leaf ∈ leaves form, leaf.text ≠ "") →
    form.solid = form
  | .atom text start stop, _ => rfl
  | .list items start stop, h => by rw [solid, solidAll_eq_self items h]

theorem solidAll_eq_self : ∀ forms : List Form, (∀ leaf ∈ leavesAll forms, leaf.text ≠ "") →
    solidAll forms = forms
  | [], _ => rfl
  | form :: forms, h => by
    obtain ⟨hform, hforms⟩ := List.forall_mem_append.1 h
    have hempty : form.isEmpty = false := by
      cases form with
      | list items start stop => rfl
      | atom text start stop => simpa [isEmpty] using hform _ (List.mem_singleton_self _)
    rw [solidAll, hempty, solid_eq_self form hform, solidAll_eq_self forms hforms]
    rfl

end

mutual

/-- The texts of the atoms do not tell where a form stands. -/
theorem texts_bare : ∀ form : Form, (leaves form.bare).map Leaf.text = (leaves form).map Leaf.text
  | .atom _ _ _ => rfl
  | .list items _ _ => texts_bareItems items

theorem texts_bareItems : ∀ forms : List Form,
    (leavesAll (bareItems forms)).map Leaf.text = (leavesAll forms).map Leaf.text
  | [] => rfl
  | form :: forms => by
    rw [bareItems, leavesAll, leavesAll, List.map_append, List.map_append, texts_bare,
      texts_bareItems]

end

/-- **A form is the same without its empty atoms just if it has none.** -/
theorem same_solid_iff {form : Form} (h : form.isEmpty = false) :
    form.same form.solid = true ↔ ∀ leaf ∈ leaves form, leaf.text ≠ "" := by
  rw [same_iff]
  constructor
  · intro hbare leaf hleaf hempty
    -- both forms have as many atoms, so none was left out
    have htexts : (leaves form).map Leaf.text =
        ((leaves form).filter (·.text != "")).map Leaf.text := by
      rw [← leaves_solid form h, ← texts_bare form, hbare, texts_bare]
    have hmem : "" ∈ ((leaves form).filter (·.text != "")).map Leaf.text := by
      rw [← htexts]
      exact List.mem_map.2 ⟨leaf, hleaf, hempty⟩
    obtain ⟨other, hother, hno⟩ := List.mem_map.1 hmem
    exact absurd hno (by simpa using (List.mem_filter.1 hother).2)
  · intro hleaves
    rw [solid_eq_self form hleaves]

mutual

/-- A form with atoms that can be written is writable without its empty ones. -/
theorem writable_solid : ∀ form : Form, form.isEmpty = false →
    (∀ leaf ∈ leaves form, leaf.text ≠ "" → IsAtomText leaf.text.toList) → form.solid.Writable
  | .atom text start stop, hempty, h => by
    rw [solid, Writable]
    exact h _ (List.mem_singleton_self _) (by simpa [isEmpty] using hempty)
  | .list items start stop, _, h => by
    rw [solid, Writable]
    exact writableAll_solidAll items h

theorem writableAll_solidAll : ∀ forms : List Form,
    (∀ leaf ∈ leavesAll forms, leaf.text ≠ "" → IsAtomText leaf.text.toList) →
      WritableAll (solidAll forms)
  | [], _ => trivial
  | form :: forms, h => by
    obtain ⟨hform, hforms⟩ := List.forall_mem_append.1 h
    rw [solidAll]
    split
    · exact writableAll_solidAll forms hforms
    · rename_i hempty
      rw [WritableAll]
      exact ⟨writable_solid form (by simpa using hempty) hform, writableAll_solidAll forms hforms⟩

end

mutual

/-- The empty atoms are no tokens. -/
theorem tokens_solid : ∀ form : Form, form.isEmpty = false → form.solid.tokens = form.tokens
  | .atom text start stop, _ => rfl
  | .list items start stop, _ => by rw [solid, tokens, tokens, tokensAll_solidAll]

theorem tokensAll_solidAll : ∀ forms : List Form, tokensAll (solidAll forms) = tokensAll forms
  | [] => rfl
  | form :: forms => by
    rw [solidAll, tokensAll]
    split
    · rename_i hempty
      cases form with
      | list items start stop => cases hempty
      | atom text start stop =>
        rw [isEmpty, beq_iff_eq] at hempty
        rw [tokens, if_pos hempty, List.nil_append, tokensAll_solidAll]
    · rename_i hempty
      rw [tokensAll, tokens_solid form (by simpa using hempty), tokensAll_solidAll]

end

/-- Where no form is the empty atom, none is left out. -/
theorem solidAll_eq_map {forms : List Form} (h : ∀ form ∈ forms, form.isEmpty = false) :
    solidAll forms = forms.map solid := by
  induction forms with
  | nil => rfl
  | cons form forms ih =>
    obtain ⟨hform, hforms⟩ := List.forall_mem_cons.1 h
    rw [solidAll, hform, ih hforms]
    rfl

end Form

/-- In a text that is looked at from an offset on, the form is an empty atom that
stands for a parenthesis. -/
def Form.StrayIn (offset : Nat) (cs : List Char) (form : Form) : Prop :=
  form.isEmpty = true ∧ Text.charAt? (form.start - offset) cs = some ')'

/-- In a text that is looked at from an offset on, the group is closed by the
parenthesis at its end. -/
def Group.ClosedIn (offset : Nat) (cs : List Char) (group : Group) : Prop :=
  Text.charAt? (group.stop - 1 - offset) cs = some ')' ∧ group.closesAt (group.stop - 1) ')' = true

instance (offset : Nat) (cs : List Char) (form : Form) : Decidable (form.StrayIn offset cs) :=
  inferInstanceAs (Decidable (_ ∧ _))

instance (offset : Nat) (cs : List Char) (group : Group) : Decidable (group.ClosedIn offset cs) :=
  inferInstanceAs (Decidable (_ ∧ _))

/-- Whether a group is closed does not depend on what stands before the text that
it stands in. -/
theorem Group.StandsIn.closedIn_append_iff {group : Group} {offset : Nat} {cs : List Char}
    (before : List Char) (h : group.StandsIn (offset + Text.units before) cs) :
    group.ClosedIn offset (before ++ cs) ↔ group.ClosedIn (offset + Text.units before) cs := by
  obtain ⟨⟨before', rest, -, hstart⟩, -, hfits⟩ := h
  have hlt := hfits.lt
  rw [ClosedIn, ClosedIn, Text.charAt?_append_of_le (by omega)]

namespace Layout

mutual

/-- The empty atom of a layout is all that its list holds, so it is not missed in
the writing. -/
theorem chars_solid : ∀ {layout : Layout} {rest : List Char} {offset : Nat},
    layout.Stands rest → (layout.form offset).solid.chars = (layout.form offset).chars
  | .atom _ _, _, _, _ => rfl
  | .list before items gap closed, rest, offset, h => by
    rw [Stands] at h
    rw [form, Form.solid, Form.chars, Form.chars]
    obtain ⟨-, -, ⟨rfl, -⟩ | ⟨blanks, -, -, rfl, -⟩ | ⟨-, -, hitems⟩⟩ := h
    · rfl
    · rfl
    · rw [(charsOfItems_solidAll hitems).1]

theorem charsOfItems_solidAll : ∀ {items : List Layout} {rest : List Char} {offset : Nat},
    StandAll items rest →
      Form.charsOfItems (Form.solidAll (forms offset items)) =
          Form.charsOfItems (forms offset items) ∧
        Form.charsOfMore (Form.solidAll (forms offset items)) =
          Form.charsOfMore (forms offset items)
  | [], _, _, _ => ⟨rfl, rfl⟩
  | item :: items, rest, offset, h => by
    rw [StandAll] at h
    have hfirst := @chars_solid item _ offset h.1
    have hmore := (@charsOfItems_solidAll items rest (offset + Text.units item.chars) h.2).2
    rw [forms, Form.solidAll, h.1.isEmpty_form, if_neg Bool.false_ne_true]
    simp only [Form.charsOfItems, Form.charsOfMore, hfirst, hmore, and_self]

end

/-- **A list is closed by the parenthesis at its end just if it was written with
one.** Else the text would end with the items and blanks, and none of these
closes the list. -/
theorem closedIn_list_iff {before gap rest : List Char} {items : List Layout} {closed : Bool}
    (h : Stands (.list before items gap closed) rest) (offset : Nat) :
    Group.ClosedIn offset (chars (.list before items gap closed) ++ rest)
        ⟨forms (offset + Text.units before + 1) items, offset + Text.units before,
          offset + Text.units (chars (.list before items gap closed))⟩ ↔ closed = true := by
  have hunits := units_chars_list before gap items closed
  have hgap := blanks_gap h
  cases closed with
  | true =>
    refine iff_of_true ⟨?_, ?_⟩ rfl
    · have hchars : chars (.list before items gap true) ++ rest =
          (before ++ '(' :: (charsAll items ++ gap)) ++ ')' :: rest := by
        simp [chars]
      have hplace : offset + Text.units (chars (.list before items gap true)) - 1 - offset =
          Text.units (before ++ '(' :: (charsAll items ++ gap)) := by
        have hopen : Text.width '(' = 1 := rfl
        have hclose : Text.width ')' = 1 := rfl
        simp only [chars, closing_true, Text.units_append, Text.units_cons, Text.units_nil, hopen,
          hclose]
        omega
      rw [hplace, hchars, Text.charAt?_units]
    · -- the items end before the parenthesis does
      have hwithin := within_items h (offset + Text.units before + 1)
      have hone : Text.units (closing true) = 1 := rfl
      have hall : (forms (offset + Text.units before + 1) items).all
          (fun item => !item.span.covers
            ((offset + Text.units (chars (.list before items gap true)) - 1 : Nat) : Int)) =
              true := by
        refine List.all_eq_true.2 fun item hitem => ?_
        have hbounds := hwithin.1 item hitem
        rw [Bool.not_eq_true', ← Bool.not_eq_true, Form.span, Span.covers_natCast_iff]
        omega
      have hstop : offset + Text.units (chars (.list before items gap true)) =
          offset + Text.units (chars (.list before items gap true)) - 1 + 1 := by omega
      simp only [Group.closesAt, Bool.and_eq_true, beq_iff_eq]
      exact ⟨⟨trivial, hstop⟩, hall⟩
  | false =>
    refine iff_of_false ?_ Bool.false_ne_true
    rintro ⟨hchar, hcloses⟩
    have hparts := h
    rw [Stands] at hparts
    obtain ⟨hbefore, hend, -⟩ := hparts
    obtain ⟨-, hitems⟩ : _ ∧ ∀ item ∈ forms (offset + Text.units before + 1) items,
        item.span.covers _ = false := by
      simpa [Group.closesAt] using hcloses
    generalize hplace : offset + Text.units (chars (.list before items gap false)) - 1 = place
      at hchar hitems
    have hle : offset ≤ place := by omega
    rw [hend rfl, List.append_nil] at hchar
    change Text.charAt? _ (before ++ (['('] ++ (charsAll items ++ (gap ++ [])))) = _ at hchar
    rw [List.append_nil] at hchar
    rcases Text.cases_charAt?_append hle hchar with ⟨-, hchar⟩ | ⟨hle, hchar⟩
    · exact absurd (hbefore ')' (Text.mem_of_charAt? hchar)) (by decide)
    rcases Text.cases_charAt?_append hle hchar with ⟨-, hchar⟩ | ⟨hle, hchar⟩
    · exact absurd (Text.eq_of_charAt?_singleton hchar) (by decide)
    rcases Text.cases_charAt?_append hle hchar with ⟨-, hchar⟩ | ⟨-, hchar⟩
    · obtain ⟨item, hitem, hcovers⟩ := exists_covers_close h hle hchar
      exact absurd hcovers (by rw [hitems item hitem]; exact Bool.false_ne_true)
    · exact absurd (hgap ')' (Text.mem_of_charAt? hchar)) (by decide)

/-- A list that is closed by the parenthesis at its end leaves nothing open. -/
theorem openAt?_eq_none {layout : Layout} {rest : List Char} {offset : Nat}
    (h : layout.Stands rest)
    (hclosed : ∀ group ∈ Form.groups (layout.form offset),
      group.ClosedIn offset (layout.chars ++ rest)) (offset' : Nat) :
    layout.openAt? offset' = none := by
  cases layout with
  | atom before text => rfl
  | list before items gap closed =>
    rw [openAt?, if_pos ((closedIn_list_iff h offset).1 (hclosed _ List.mem_cons_self))]

end Layout

/-! ## Well-delimited texts -/

/-- No parenthesis of the text closes nothing, every list is closed by the
parenthesis at its end, and every atom that begins with a bar ends with
another. -/
structure WellDelimited (cs : List Char) : Prop where
  not_stray : ∀ form ∈ forms cs, ¬ form.StrayIn 0 cs
  closed : ∀ group ∈ Form.groupsAll (forms cs), group.ClosedIn 0 cs
  quoted : ∀ leaf ∈ Form.leavesAll (forms cs), leaf.text.toList.head? = some '|' →
    leaf.text.toList.tail.getLast? = some '|'

/-- An atom of a text has the text of an atom, if it is not empty and its quotes
are closed. -/
theorem Leaf.StandsIn.isAtomText {leaf : Leaf} {offset : Nat} {cs : List Char}
    (h : leaf.StandsIn offset cs) (hne : leaf.text ≠ "")
    (hquoted : leaf.text.toList.head? = some '|' → leaf.text.toList.tail.getLast? = some '|') :
    IsAtomText leaf.text.toList := by
  obtain ⟨before, rest, -, -, -, hatom⟩ := h
  have hstands := hatom hne
  generalize leaf.text.toList = text at hquoted hstands
  cases hstands with
  | plain hplain _ => exact .inl hplain
  | @quoted inner _ hinner => exact .inr ⟨inner, hinner, rfl⟩
  | cut hinner => exact absurd (List.mem_of_getLast? (hquoted rfl)) hinner

namespace Piece

/-- A layout that leaves no list open. -/
def Shut : Piece → Prop
  | .form layout => ∀ offset, layout.openAt? offset = none
  | .stray _ => False

variable {pieces : List Piece} {gap : List Char}

/-- **In a text in which every list is closed and every parenthesis closes one,
there are only layouts that leave nothing open.** -/
theorem shut_of_closed {afterStray : Bool} {offset : Nat} (h : Laid pieces gap)
    (hstray : ∀ form ∈ forms afterStray offset gap pieces,
      ¬ form.StrayIn offset (charsAll pieces ++ gap))
    (hclosed : ∀ group ∈ Form.groupsAll (forms afterStray offset gap pieces),
      group.ClosedIn offset (charsAll pieces ++ gap)) :
    ∀ piece ∈ pieces, piece.Shut := by
  induction pieces generalizing afterStray offset with
  | nil => exact fun _ hpiece => nomatch hpiece
  | cons piece pieces ih =>
    rw [charsAll, List.append_assoc] at hstray hclosed
    cases piece with
    | stray before =>
      refine absurd ⟨rfl, ?_⟩ (hstray _ List.mem_cons_self)
      have hplace : (Reader.emptyAtom (offset + Text.units before)).start - offset =
          Text.units before := Nat.add_sub_cancel_left _ _
      rw [hplace, chars, List.append_assoc, List.singleton_append, Text.charAt?_units]
    | form layout =>
      rw [Laid] at h
      rw [forms] at hstray hclosed
      obtain ⟨hgroups, hmore⟩ := List.forall_mem_append.1 hclosed
      obtain ⟨-, hforms⟩ := List.forall_mem_cons.1 hstray
      refine List.forall_mem_cons.2 ⟨Layout.openAt?_eq_none h.1 hgroups,
        @ih false (offset + Text.units layout.chars) h.2
          (fun form hform hstrayed => hforms form hform ⟨hstrayed.1, ?_⟩)
          fun group hgroup => ?_⟩
      · have hlow := ((within_forms h.2 false _).1 form hform).1
        rw [chars, Text.charAt?_append_of_le hlow]
        exact hstrayed.2
      · exact ((standsIn_of_mem_groupsAll h.2 group hgroup).closedIn_append_iff _).1
          (hmore group hgroup)

/-- Layouts that leave nothing open hold the tokens of their forms, and none of
the forms is the empty atom; without their empty atoms they are written
alike. -/
theorem forms_of_shut (h : Laid pieces gap) (hshut : ∀ piece ∈ pieces, piece.Shut)
    (offset : Nat) :
    let all := forms false offset gap pieces
    Text.tokens (charsAll pieces ++ gap) = Form.tokensAll all ∧
      (∀ form ∈ all, form.isEmpty = false) ∧
      (all.map Form.solid).map Form.chars = all.map Form.chars := by
  induction pieces generalizing offset with
  | nil =>
    rw [Laid] at h
    have htokens := Text.tokens_blanks h []
    rw [List.append_nil] at htokens
    exact ⟨htokens, fun _ hform => absurd hform List.not_mem_nil, rfl⟩
  | cons piece pieces ih =>
    obtain ⟨hpiece, hpieces⟩ := List.forall_mem_cons.1 hshut
    cases piece with
    | stray before => exact hpiece.elim
    | form layout =>
      rw [Laid] at h
      obtain ⟨htokens, hempty, hchars⟩ := ih h.2 hpieces (offset + Text.units layout.chars)
      refine ⟨?_, List.forall_mem_cons.2 ⟨h.1.isEmpty_form offset, hempty⟩, ?_⟩
      · rw [charsAll, chars, List.append_assoc, Layout.tokens_layout h.1 (hpiece offset), htokens]
        rfl
      · rw [forms, List.map_cons, List.map_cons, List.map_cons, hchars, Layout.chars_solid h.1]

end Piece

namespace WellDelimited

variable {cs : List Char}

/-- The forms of a well-delimited text: its tokens are theirs, none of them is
the empty atom, and without their empty atoms they are writable and written
alike. -/
theorem forms_facts (h : WellDelimited cs) :
    Text.tokens cs = Form.tokensAll (forms cs) ∧
      (∀ form ∈ forms cs, form.isEmpty = false) ∧
      ((forms cs).map Form.solid).map Form.chars = (forms cs).map Form.chars ∧
      Form.WritableAll (Form.solidAll (forms cs)) := by
  obtain ⟨hstray, hclosed, hquoted⟩ := h
  obtain ⟨pieces, gap, rfl, hlaid⟩ := exists_pieces cs
  rw [forms_pieces hlaid] at hstray hclosed hquoted ⊢
  have hshut := Piece.shut_of_closed hlaid hstray hclosed
  obtain ⟨htokens, hempty, hchars⟩ := Piece.forms_of_shut hlaid hshut 0
  refine ⟨htokens, hempty, hchars, Form.writableAll_solidAll _ fun leaf hleaf hne => ?_⟩
  exact (Piece.standsIn_of_mem_leavesAll hlaid leaf hleaf).isAtomText hne (hquoted leaf hleaf)

end WellDelimited

/-- Forms are writable if each is. -/
theorem Form.writable_of_mem {forms : List Form} (h : WritableAll forms) :
    ∀ form ∈ forms, form.Writable := by
  induction forms with
  | nil => exact fun _ hform => nomatch hform
  | cons form forms ih =>
    rw [WritableAll] at h
    exact List.forall_mem_cons.2 ⟨h.1, ih h.2⟩

/-- Lists of forms are equal item by item if their items are. -/
theorem Form.forall₂_of_sameItems : ∀ {items others : List Form},
    sameItems items others = true →
      List.Forall₂ (fun item other => item.same other = true) items others
  | [], [], _ => .nil
  | [], _ :: _, h => nomatch h
  | _ :: _, [], h => nomatch h
  | item :: items, other :: others, h => by
    rw [sameItems, Bool.and_eq_true] at h
    exact .cons h.1 (forall₂_of_sameItems h.2)

/-- Forms that are read again without their empty atoms. -/
theorem Form.forall₂_again {forms again : List Form}
    (hempty : ∀ form ∈ forms, form.isEmpty = false)
    (h : sameItems again (forms.map solid) = true) :
    List.Forall₂ (fun form again => again.same form.solid = true ∧
      (form.same again = true ↔ ∀ leaf ∈ leaves form, leaf.text ≠ "")) forms again := by
  have hall := (List.forall₂_map_right_iff.1 (forall₂_of_sameItems h)).flip
  induction hall with
  | nil => exact .nil
  | @cons form found forms again hfound _ ih =>
    obtain ⟨hform, hforms⟩ := List.forall_mem_cons.1 hempty
    rw [List.map_cons, sameItems, Bool.and_eq_true] at h
    refine .cons ⟨hfound, ?_⟩ (ih hforms h.2)
    rw [same_iff, (same_iff _ _).1 hfound, ← same_iff]
    exact same_solid_iff hform

/-- **Where blanks stand between the tokens of a text does not matter**, but for
the lists that hold blanks only. The forms of a well-delimited text, written
with a space between them and read again, are as many, and each is read
again without its empty atoms; so it is read again as it is just if there is
none in it. And whatever blanks stand between the same tokens, the forms are
the same without their empty atoms. -/
theorem same_respaced_iff (cs : List Char) (h : WellDelimited cs) :
    List.Forall₂
      (fun form again => again.same form.solid = true ∧
        (form.same again = true ↔ ∀ leaf ∈ Form.leaves form, leaf.text ≠ ""))
      (forms cs) (forms ([' '].intercalate ((forms cs).map fun form => form.render.toList))) ∧
    ∀ other : List Char, WellDelimited other → Text.tokens other = Text.tokens cs →
      Form.sameItems (Form.solidAll (forms other)) (Form.solidAll (forms cs)) = true := by
  obtain ⟨htokens, hempty, hchars, hwritable⟩ := h.forms_facts
  refine ⟨?_, fun other hother hsame => ?_⟩
  · have hrender : ((forms cs).map fun form => form.render.toList) =
        ((forms cs).map Form.solid).map Form.chars := by
      rw [hchars]
      exact List.map_congr_left fun form _ => String.toList_ofList
    have hsolid := Form.solidAll_eq_map hempty
    rw [hsolid] at hwritable
    have hread := Form.readAll_intercalate false (List.cons_ne_nil ' ' []) Form.blanks_space
      (Form.writable_of_mem hwritable)
    have hagain : forms ([' '].intercalate (((forms cs).map Form.solid).map Form.chars)) =
        Piece.forms false 0 [] (Form.pieces [] [' '] ((forms cs).map Form.solid)) := by
      rw [forms, hread]
    rw [hrender, hagain]
    exact Form.forall₂_again hempty
      (Form.sameItems_forms_pieces [] [' '] ((forms cs).map Form.solid) 0)
  · obtain ⟨htokens', -, -, hwritable'⟩ := hother.forms_facts
    rw [htokens, htokens', ← Form.tokensAll_solidAll, ← Form.tokensAll_solidAll (forms cs)] at hsame
    rw [Form.sameItems_iff]
    exact (Form.bareItems_eq_of_tokensAll hwritable' hwritable Form.ends_nil Form.ends_nil
      (by rw [hsame])).1

/-- Other blanks, also directly behind a parenthesis, and none before a bar. -/
theorem same_respaced_iff_quoted :
    let text := "(f (a)) |(|".toList
    let other := "( f\t(a ) )|(|".toList
    (WellDelimited text ∧ WellDelimited other ∧ Text.tokens other = Text.tokens text) ∧
      (forms ([' '].intercalate ((forms text).map fun form => form.render.toList))).length = 2 ∧
      Form.sameItems (Form.solidAll (forms other)) (Form.solidAll (forms text)) = true := by
  have hall : forms "(f (a)) |(|".toList =
      [.list [.atom "f" 1 2, .list [.atom "a" 4 5] 3 6] 0 7, .atom "|(|" 8 11] := by cbv
  have hother : forms "( f\t(a ) )|(|".toList =
      [.list [.atom "f" 2 3, .list [.atom "a" 5 6] 4 8] 0 10, .atom "|(|" 10 13] := by cbv
  have htext : WellDelimited "(f (a)) |(|".toList := by
    constructor <;> rw [hall] <;> decide
  have hspaced : WellDelimited "( f\t(a ) )|(|".toList := by
    constructor <;> rw [hother] <;> decide
  intro text other
  have htokens : Text.tokens other = Text.tokens text := by decide
  obtain ⟨hagain, hsame⟩ := same_respaced_iff text htext
  refine ⟨⟨htext, hspaced, htokens⟩, ?_, hsame other hspaced htokens⟩
  rw [← hagain.length_eq]
  exact congrArg List.length hall

/-- Between the parentheses of a list stands a blank: the list holds the empty
atom, and written without the blank it holds nothing. -/
theorem respaced_differs :
    let text := "( )".toList
    let again := forms ([' '].intercalate ((forms text).map fun form => form.render.toList))
    WellDelimited text ∧ (forms text).length = again.length ∧
      Form.sameItems (forms text) again = false := by
  intro text again
  have hall : forms "( )".toList = [.list [.atom "" 2 2] 0 3] := by cbv
  have hagain : again = [.list [] 0 2] := by
    show forms ([' '].intercalate ((forms "( )".toList).map fun form => form.render.toList)) = _
    rw [hall]
    cbv
  have htext : WellDelimited "( )".toList := by
    constructor <;> rw [hall] <;> decide
  exact ⟨htext, by rw [hall, hagain]; rfl, by rw [hall, hagain]; rfl⟩

end SatScript
