import SatScript.Proofs.Layout.Pieces
/-!
# SatScript — writing forms and reading them back

Not every form can be written and read back: the text of an atom has to be
one that the reader would take for an atom. Where every atom of a form is
such a text the form is *writable*. The canonical writing of a writable
form is a layout of it, one space before every item of a list but the
first, so what was proved on layouts applies: reading the writing gives the
form back, alone or among others (`read_render`), and no two writable forms
that differ are written alike.
-/

namespace SatScript

namespace Form

mutual

/-- Every atom of the form has a text that stands for an atom. -/
def Writable : Form → Prop
  | .atom text _ _ => IsAtomText text.toList
  | .list items _ _ => WritableAll items

/-- The forms are writable. -/
def WritableAll : List Form → Prop
  | [] => True
  | form :: forms => Writable form ∧ WritableAll forms

end

mutual

/-- The canonical layout of a form, behind blanks. -/
def layout (before : List Char) : Form → Layout
  | .atom text _ _ => .atom before text.toList
  | .list items _ _ => .list before (layoutOfItems items) [] true

/-- The canonical layouts of the items of a list. -/
def layoutOfItems : List Form → List Layout
  | [] => []
  | item :: items => layout [] item :: layoutOfMore items

/-- The canonical layouts of items that follow others. -/
def layoutOfMore : List Form → List Layout
  | [] => []
  | item :: items => layout [' '] item :: layoutOfMore items

end

mutual

/-- The canonical layout is written as the canonical writing. -/
theorem chars_layout (before : List Char) :
    ∀ form : Form, (form.layout before).chars = before ++ form.chars
  | .atom text start stop => rfl
  | .list items start stop => by
    rw [layout, Layout.chars, charsAll_layoutOfItems, Form.chars]
    rfl

theorem charsAll_layoutOfItems :
    ∀ items : List Form, Layout.charsAll (layoutOfItems items) = charsOfItems items
  | [] => rfl
  | item :: items => by
    rw [layoutOfItems, Layout.charsAll, chars_layout, charsAll_layoutOfMore, charsOfItems,
      List.nil_append]

theorem charsAll_layoutOfMore :
    ∀ items : List Form, Layout.charsAll (layoutOfMore items) = charsOfMore items
  | [] => rfl
  | item :: items => by
    rw [layoutOfMore, Layout.charsAll, chars_layout, charsAll_layoutOfMore, charsOfMore,
      List.append_assoc]
    rfl

end

mutual

/-- The form of the canonical layout is the form, but for where it stands. -/
theorem same_form_layout (before : List Char) :
    ∀ (form : Form) (offset : Nat), ((form.layout before).form offset).same form = true
  | .atom text start stop, offset => by simp [layout, Layout.form, same]
  | .list items start stop, offset => by
    rw [layout, Layout.form, same]
    exact sameItems_forms_layoutOfItems items _

theorem sameItems_forms_layoutOfItems :
    ∀ (items : List Form) (offset : Nat),
      sameItems (Layout.forms offset (layoutOfItems items)) items = true
  | [], _ => rfl
  | item :: items, offset => by
    rw [layoutOfItems, Layout.forms, sameItems, same_form_layout, Bool.true_and]
    exact sameItems_forms_layoutOfMore items _

theorem sameItems_forms_layoutOfMore :
    ∀ (items : List Form) (offset : Nat),
      sameItems (Layout.forms offset (layoutOfMore items)) items = true
  | [], _ => rfl
  | item :: items, offset => by
    rw [layoutOfMore, Layout.forms, sameItems, same_form_layout, Bool.true_and]
    exact sameItems_forms_layoutOfMore items _

end

/-- A space follows an item if another does. -/
theorem delimited_charsOfMore {items : List Form} {rest : List Char} (h : Delimited rest) :
    Delimited (charsOfMore items ++ rest) := by
  cases items with
  | nil => exact h
  | cons item items => exact delimited_cons.2 rfl

theorem blanks_space : Blanks [' '] := by
  intro c hc
  rw [List.mem_singleton.1 hc]
  rfl

/-- The canonical layout leaves no list open. -/
theorem openAt?_layout (before : List Char) (form : Form) (offset : Nat) :
    (form.layout before).openAt? offset = none := by
  cases form <;> rfl

mutual

/-- **The canonical layout of a writable form stands** wherever an atom could
end. -/
theorem stands_layout {before : List Char} (hbefore : Blanks before) :
    ∀ {form : Form} {rest : List Char}, form.Writable → Delimited rest →
      (form.layout before).Stands rest
  | .atom text start stop, rest, hform, hrest => by
    rw [Writable] at hform
    rw [layout, Layout.Stands]
    exact ⟨hbefore, hform.stands fun _ => hrest⟩
  | .list [] start stop, rest, hform, hrest => by
    rw [layout, layoutOfItems, Layout.Stands]
    exact ⟨hbefore, by simp, .inl ⟨rfl, rfl⟩⟩
  | .list (item :: items) start stop, rest, hform, hrest => by
    rw [Writable, WritableAll] at hform
    rw [layout, layoutOfItems, Layout.Stands]
    refine ⟨hbefore, by simp, .inr (.inr ⟨List.cons_ne_nil _ _, Blanks.nil, ?_⟩)⟩
    have hclosing : Delimited (Layout.closing true ++ rest) := delimited_cons.2 rfl
    rw [List.nil_append, Layout.StandAll, charsAll_layoutOfMore]
    exact ⟨stands_layout Blanks.nil hform.1 (delimited_charsOfMore hclosing),
      standAll_layoutOfMore hform.2 hclosing⟩

theorem standAll_layoutOfMore :
    ∀ {items : List Form} {rest : List Char}, WritableAll items → Delimited rest →
      Layout.StandAll (layoutOfMore items) rest
  | [], _, _, _ => by
    rw [layoutOfMore, Layout.StandAll]
    trivial
  | item :: items, rest, hitems, hrest => by
    rw [WritableAll] at hitems
    rw [layoutOfMore, Layout.StandAll, charsAll_layoutOfMore]
    exact ⟨stands_layout blanks_space hitems.1 (delimited_charsOfMore hrest),
      standAll_layoutOfMore hitems.2 hrest⟩

end

/-! ## Reading back -/

/-- A writable form is read back from its writing, whatever follows that could
end an atom. -/
theorem readOne_chars {form : Form} {rest : List Char} (strict : Bool) (hform : form.Writable)
    (hrest : Delimited rest) :
    readOne strict (form.chars ++ rest) =
      .ok ⟨(form.layout []).form 0, ⟨Text.units form.chars, rest⟩⟩ := by
  have hread := @Cursor.readOne_layout strict _ 0 _ (stands_layout Blanks.nil hform hrest)
    fun _ => openAt?_layout [] form 0
  rwa [chars_layout, List.nil_append, Nat.zero_add] at hread

/-- The pieces of forms one after another, with blanks before each. -/
def pieces (before separator : List Char) : List Form → List Piece
  | [] => []
  | form :: forms => .form (form.layout before) :: pieces separator separator forms

theorem charsAll_pieces (before separator : List Char) (form : Form) (forms : List Form) :
    Piece.charsAll (pieces before separator (form :: forms)) =
      before ++ separator.intercalate ((form :: forms).map Form.chars) := by
  induction forms generalizing before form with
  | nil => simp [pieces, Piece.charsAll, Piece.chars, chars_layout]
  | cons next forms ih =>
    rw [pieces, Piece.charsAll, Piece.chars, chars_layout, ih, List.map_cons, List.map_cons,
      List.map_cons, List.intercalate_cons_cons]
    simp

/-- Blanks end an atom. -/
theorem delimited_pieces {separator : List Char} (hne : separator ≠ [])
    (h : Blanks separator) (forms : List Form) :
    Delimited (Piece.charsAll (pieces separator separator forms)) := by
  cases forms with
  | nil => exact delimited_nil
  | cons form forms =>
    obtain ⟨c, cs, rfl⟩ := List.exists_cons_of_ne_nil hne
    rw [charsAll_pieces, List.cons_append, delimited_cons]
    simp [Reader.endsAtom, h c List.mem_cons_self]

/-- Writable forms with blanks between them are pieces of a text. -/
theorem laid_pieces {before separator : List Char} {forms : List Form}
    (hbefore : Blanks before) (hne : separator ≠ []) (h : Blanks separator)
    (hforms : ∀ form ∈ forms, form.Writable) :
    Piece.Laid (pieces before separator forms) [] := by
  induction forms generalizing before with
  | nil => exact Blanks.nil
  | cons form forms ih =>
    obtain ⟨hform, hforms⟩ := List.forall_mem_cons.1 hforms
    refine ⟨?_, ih h hforms⟩
    rw [List.append_nil]
    exact stands_layout hbefore hform (delimited_pieces hne h forms)

theorem openAt?_pieces (before separator : List Char) (forms : List Form) (offset : Nat) :
    Piece.openAt? offset (pieces before separator forms) = none := by
  induction forms generalizing before offset with
  | nil => rfl
  | cons form forms ih => rw [pieces, Piece.openAt?, openAt?_layout, ih, Option.none_or]

theorem sameItems_forms_pieces (before separator : List Char) (forms : List Form)
    (offset : Nat) :
    sameItems (Piece.forms false offset [] (pieces before separator forms)) forms = true := by
  induction forms generalizing before offset with
  | nil => rfl
  | cons form forms ih =>
    rw [pieces, Piece.forms, sameItems, same_form_layout, ih, Bool.true_and]

/-- Writable forms are read back from their writings, with blanks between
them. -/
theorem readAll_intercalate {separator : List Char} {forms : List Form} (strict : Bool)
    (hne : separator ≠ []) (h : Blanks separator) (hforms : ∀ form ∈ forms, form.Writable) :
    readAll strict (separator.intercalate (forms.map Form.chars)) =
      .ok (Piece.forms false 0 [] (pieces [] separator forms)) := by
  have hread := readAll_pieces (laid_pieces Blanks.nil hne h hforms)
    fun _ : strict = true => openAt?_pieces [] separator forms 0
  -- the first writing has no separator before it
  cases forms with
  | nil => exact hread
  | cons form forms => rwa [charsAll_pieces, List.nil_append, List.append_nil] at hread

/-! ## What the writing of a form tells -/

mutual

/-- The form as it is when it stands nowhere. -/
def bare : Form → Form
  | .atom text _ _ => .atom text 0 0
  | .list items _ _ => .list (bareItems items) 0 0

/-- The items as they are when they stand nowhere. -/
def bareItems : List Form → List Form
  | [] => []
  | item :: items => bare item :: bareItems items

end

mutual

/-- Two forms are the same just if they are equal but for where they stand. -/
theorem same_iff : ∀ form other : Form, form.same other = true ↔ form.bare = other.bare
  | .atom text start stop, .atom text' start' stop' => by simp [same, bare]
  | .atom text start stop, .list items' start' stop' => by simp [same, bare]
  | .list items start stop, .atom text' start' stop' => by simp [same, bare]
  | .list items start stop, .list items' start' stop' => by
    rw [same, sameItems_iff items items']
    simp [bare]

theorem sameItems_iff :
    ∀ items others : List Form, sameItems items others = true ↔ bareItems items = bareItems others
  | [], [] => by simp [sameItems]
  | [], other :: others => by simp [sameItems, bareItems]
  | item :: items, [] => by simp [sameItems, bareItems]
  | item :: items, other :: others => by
    rw [sameItems, Bool.and_eq_true, same_iff item other, sameItems_iff items others]
    simp [bareItems]

end

mutual

/-- The writing does not tell where a form stands. -/
theorem chars_bare : ∀ form : Form, form.bare.chars = form.chars
  | .atom text start stop => rfl
  | .list items start stop => by rw [bare, chars, chars, charsOfItems_bareItems]

theorem charsOfItems_bareItems :
    ∀ items : List Form, charsOfItems (bareItems items) = charsOfItems items
  | [] => rfl
  | item :: items => by
    rw [bareItems, charsOfItems, charsOfItems, chars_bare, charsOfMore_bareItems]

theorem charsOfMore_bareItems :
    ∀ items : List Form, charsOfMore (bareItems items) = charsOfMore items
  | [] => rfl
  | item :: items => by
    rw [bareItems, charsOfMore, charsOfMore, chars_bare, charsOfMore_bareItems]

end

/-- Two writable forms are the same just if they are written alike. -/
theorem same_iff_chars_eq {form other : Form} (hform : form.Writable) (hother : other.Writable) :
    form.same other = true ↔ form.chars = other.chars := by
  constructor
  · intro h
    rw [← chars_bare form, (same_iff form other).1 h, chars_bare]
  · -- reading the one writing gives both forms back
    intro h
    have hread := readOne_chars false hform delimited_nil
    rw [h, readOne_chars false hother delimited_nil] at hread
    injection hread with hread
    have hsame : (other.layout []).form 0 = (form.layout []).form 0 := congrArg Reading.form hread
    have hleft := (same_iff _ _).1 (same_form_layout [] form 0)
    have hright := (same_iff _ _).1 (same_form_layout [] other 0)
    rw [same_iff, ← hleft, ← hright, hsame]

/-- **Writing and reading are inverse** on writable forms. A form is read back
from its writing alone, whatever follows that could end an atom, and the
reader then stands right behind it; forms are read back from their
writings with any blanks between them; so two forms are the same just if
they are written alike. -/
theorem read_render :
    (∀ (form : Form) (strict : Bool) (rest : List Char), form.Writable → Delimited rest →
      ∃ reading, readOne strict (form.render.toList ++ rest) = .ok reading ∧
        reading.form.same form = true ∧
        reading.next = ⟨Text.units form.render.toList, rest⟩) ∧
    (∀ (forms : List Form) (strict : Bool) (separator : List Char), separator ≠ [] →
      Blanks separator → (∀ form ∈ forms, form.Writable) →
      ∃ found, readAll strict
          (separator.intercalate (forms.map fun form => form.render.toList)) = .ok found ∧
        sameItems found forms = true) ∧
    (∀ form other : Form, form.Writable → other.Writable →
      (form.same other = true ↔ form.render = other.render)) := by
  have htext : ∀ form : Form, form.render.toList = form.chars := fun form => String.toList_ofList
  refine ⟨?one, ?all, ?alike⟩
  case one =>
    intro form strict rest hform hrest
    rw [htext]
    exact ⟨_, readOne_chars strict hform hrest, same_form_layout [] form 0, rfl⟩
  case all =>
    intro forms strict separator hne h hforms
    simp only [htext]
    exact ⟨_, readAll_intercalate strict hne h hforms, sameItems_forms_pieces [] separator forms 0⟩
  case alike =>
    intro form other hform hother
    rw [same_iff_chars_eq hform hother, ← htext, ← htext, String.toList_inj]

/-- A list of a quoted atom, with a parenthesis in it, and an empty list: a
parenthesis may follow it directly, and it is the same wherever it stands. -/
theorem read_render_quoted :
    (∃ reading, readOne true "(|a )| ())(".toList = .ok reading ∧
      reading.form.same (.ofItems [.ofText "|a )|", .ofItems []]) = true ∧
      reading.next = ⟨10, ['(']⟩) ∧
    (∃ found, readAll false "(|a )| ())\t(|a )| ())".toList = .ok found ∧
      sameItems found [.ofItems [.ofText "|a )|", .ofItems []],
        .ofItems [.ofText "|a )|", .ofItems []]] = true) ∧
    ((Form.ofItems [.ofText "|a )|", .ofItems []]).same
        (.list [.atom "|a )|" 4 9, .list [] 10 12] 3 13) = true ↔
      (Form.ofItems [.ofText "|a )|", .ofItems []]).render =
        (Form.list [.atom "|a )|" 4 9, .list [] 10 12] 3 13).render) := by
  have hquoted : IsAtomText "|a )|".toList := .inr ⟨"a )".toList, by decide, rfl⟩
  have hlist : (Form.ofItems [.ofText "|a )|", .ofItems []]).Writable :=
    ⟨hquoted, trivial, trivial⟩
  have hplaced : (Form.list [.atom "|a )|" 4 9, .list [] 10 12] 3 13).Writable :=
    ⟨hquoted, trivial, trivial⟩
  obtain ⟨hone, hall, halike⟩ := read_render
  refine ⟨hone _ true ['('] hlist (delimited_cons.2 rfl), ?_, halike _ _ hlist hplaced⟩
  have hboth : ∀ form ∈ List.replicate 2 (Form.ofItems [.ofText "|a )|", .ofItems []]),
      form.Writable := by
    intro form hform
    rw [(List.mem_replicate.1 hform).2]
    exact hlist
  exact hall _ false ['\t'] (by decide) (by decide) hboth

end Form

end SatScript
