import SatScript.Form.Reader
/-!
# SatScript — layouts

A layout is a form together with everything that was written for it: the
blanks before it and before the parenthesis that closes a list, and
whether that parenthesis is there at all. `chars` writes a layout and
`form` says which form it is at an offset, so nothing of a text is lost.

`Stands layout rest` is the grammar. It says that the layout is one the
reader would find before `rest`, which matters in three places: an atom
without quotes ends where a blank or a parenthesis follows, and a quoted
atom or a list may be left open only where the text ends. What the reader
makes of a layout is the subject of the module on reading, and that every
text has a layout that of the module on existence.
-/

namespace SatScript

/-- A form as it was written: an atom with the blanks before it; a list with
the blanks before it, its items, the blanks behind them, and whether it is
closed. -/
inductive Layout where
  | atom (before text : List Char)
  | list (before : List Char) (items : List Layout) (gap : List Char) (closed : Bool)

/-- Blanks only. -/
def Blanks (cs : List Char) : Prop := ∀ c ∈ cs, Text.isBlank c = true

instance (cs : List Char) : Decidable (Blanks cs) :=
  List.decidableBAll (fun c => Text.isBlank c = true) cs

/-- If the text goes on, it does so with a character that ends an atom. -/
def Delimited (rest : List Char) : Prop := ∀ c, rest.head? = some c → Reader.endsAtom c = true

/-- The text of an atom that has no quotes. -/
structure IsPlain (text : List Char) : Prop where
  ne_nil : text ≠ []
  head_ne_bar : text.head? ≠ some '|'
  not_endsAtom : ∀ c ∈ text, Reader.endsAtom c = false

/-- A quoted text, from bar to bar. -/
def quoted (inner : List Char) : List Char := '|' :: (inner ++ ['|'])

/-- The text of an atom, given what follows it: without quotes, quoted, or
quoted and cut off by the end of the text. -/
inductive AtomStands : List Char → List Char → Prop
  | plain {text rest : List Char} : IsPlain text → Delimited rest → AtomStands text rest
  | quoted {inner rest : List Char} : '|' ∉ inner → AtomStands (quoted inner) rest
  | cut {inner : List Char} : '|' ∉ inner → AtomStands ('|' :: inner) []

/-- A text that stands for an atom: without quotes, or quoted. -/
def IsAtomText (text : List Char) : Prop :=
  IsPlain text ∨ ∃ inner, '|' ∉ inner ∧ text = quoted inner

namespace Layout

/-- The parenthesis of a list that is closed. -/
def closing (closed : Bool) : List Char := if closed then [')'] else []

@[simp] theorem closing_true : closing true = [')'] := rfl

@[simp] theorem closing_false : closing false = [] := rfl

mutual

/-- The characters of a layout. -/
def chars : Layout → List Char
  | .atom before text => before ++ text
  | .list before items gap closed =>
    before ++ '(' :: (charsAll items ++ (gap ++ closing closed))

/-- The characters of layouts one after another. -/
def charsAll : List Layout → List Char
  | [] => []
  | item :: items => chars item ++ charsAll items

end

mutual

/-- The form of a layout that begins at an offset. -/
def form (offset : Nat) : Layout → Form
  | .atom before text =>
    .atom (String.ofList text) (offset + Text.units before)
      (offset + Text.units before + Text.units text)
  | .list before items gap closed =>
    .list (forms (offset + Text.units before + 1) items) (offset + Text.units before)
      (offset + Text.units (chars (.list before items gap closed)))

/-- The forms of layouts one after another. -/
def forms (offset : Nat) : List Layout → List Form
  | [] => []
  | item :: items => form offset item :: forms (offset + Text.units (chars item)) items

end

mutual

/-- The layout is one that the reader finds before `rest`. Between the
parentheses of a list stands nothing, the empty atom behind blanks, or
items. -/
def Stands : Layout → List Char → Prop
  | .atom before text, rest => Blanks before ∧ AtomStands text rest
  | .list before items gap closed, rest =>
    Blanks before ∧ (closed = false → rest = []) ∧
      (items = [] ∧ gap = [] ∨
        (∃ blanks, blanks ≠ [] ∧ Blanks blanks ∧ items = [.atom blanks []] ∧ gap = []) ∨
        items ≠ [] ∧ Blanks gap ∧ StandAll items (gap ++ (closing closed ++ rest)))

/-- The layouts are ones that the reader finds one after another before
`rest`. -/
def StandAll : List Layout → List Char → Prop
  | [], _ => True
  | item :: items, rest => Stands item (charsAll items ++ rest) ∧ StandAll items rest

end

mutual

/-- Where the innermost list begins that is left open. -/
def openAt? (offset : Nat) : Layout → Option Nat
  | .atom _ _ => none
  | .list before items _ closed =>
    if closed then none
    else (openAtIn? (offset + Text.units before + 1) items).or (some (offset + Text.units before))

/-- Where the innermost list begins that is left open in the last of the
layouts that leaves one open. -/
def openAtIn? (offset : Nat) : List Layout → Option Nat
  | [] => none
  | item :: items =>
    (openAt? offset item).or (openAtIn? (offset + Text.units (chars item)) items)

end

/-! ## Small facts -/

@[simp] theorem charsAll_append (items more : List Layout) :
    charsAll (items ++ more) = charsAll items ++ charsAll more := by
  induction items with
  | nil => rfl
  | cons item items ih => simp [charsAll, ih]

end Layout

/-- A text is plain if a test of each of its characters says so. -/
theorem IsPlain.of_all {text : List Char} (hne : text ≠ []) (hbar : text.head? ≠ some '|')
    (h : text.all (fun c => !Reader.endsAtom c) = true) : IsPlain text :=
  ⟨hne, hbar, fun c hc => by simpa using List.all_eq_true.1 h c hc⟩

theorem Blanks.nil : Blanks [] := fun _ h => nomatch h

theorem Blanks.of_cons {c : Char} {cs : List Char} (h : Blanks (c :: cs)) :
    Text.isBlank c = true ∧ Blanks cs :=
  ⟨h c List.mem_cons_self, fun d hd => h d (List.mem_cons_of_mem _ hd)⟩

/-- A blank takes one unit. -/
theorem width_of_isBlank {c : Char} (h : Text.isBlank c = true) : Text.width c = 1 := by
  simp only [Text.isBlank, Bool.or_eq_true, beq_iff_eq] at h
  rcases h with ((rfl | rfl) | rfl) | rfl <;> decide

theorem delimited_nil : Delimited [] := fun _ h => nomatch h

theorem delimited_cons {c : Char} {cs : List Char} :
    Delimited (c :: cs) ↔ Reader.endsAtom c = true :=
  ⟨fun h => h c rfl, fun h _ hd => by cases hd; exact h⟩

/-- The text of an atom begins with a character that ends no atom. -/
theorem AtomStands.exists_cons {text rest : List Char} (h : AtomStands text rest) :
    ∃ c cs, text = c :: cs ∧ Reader.endsAtom c = false := by
  cases h with
  | plain hp _ =>
    obtain ⟨c, cs, rfl⟩ := List.exists_cons_of_ne_nil hp.ne_nil
    exact ⟨c, cs, rfl, hp.not_endsAtom c List.mem_cons_self⟩
  | @quoted inner _ _ => exact ⟨'|', inner ++ ['|'], rfl, rfl⟩
  | @cut inner _ => exact ⟨'|', inner, rfl, rfl⟩

/-- A text that stands for an atom stands before whatever could end one; if it
is quoted, before anything. -/
theorem IsAtomText.stands {text rest : List Char} (h : IsAtomText text)
    (hrest : IsPlain text → Delimited rest) : AtomStands text rest := by
  rcases h with hplain | ⟨inner, hinner, rfl⟩
  · exact .plain hplain (hrest hplain)
  · exact .quoted hinner

/-- A character that ends no atom is neither a blank nor a parenthesis. -/
theorem of_endsAtom_eq_false {c : Char} (h : Reader.endsAtom c = false) :
    Text.isBlank c = false ∧ c ≠ '(' ∧ c ≠ ')' := by
  simp only [Reader.endsAtom, Bool.or_eq_false_iff, beq_eq_false_iff_ne] at h
  exact ⟨h.1.1, h.1.2, h.2⟩

namespace Layout

/-- **A layout begins with blanks and then with a character that begins a
form**: it is no blank and closes nothing. The form stands from there to the
end of the layout. -/
theorem Stands.exists_written {layout : Layout} {rest : List Char} (h : layout.Stands rest) :
    ∃ before c cs, Blanks before ∧ Text.isBlank c = false ∧ c ≠ ')' ∧
      layout.chars = before ++ c :: cs ∧
      ∀ offset, (layout.form offset).start = offset + Text.units before ∧
        (layout.form offset).stop = offset + Text.units layout.chars := by
  cases layout with
  | atom before text =>
    rw [Stands] at h
    obtain ⟨c, cs, rfl, hc⟩ := h.2.exists_cons
    obtain ⟨hblank, -, hclose⟩ := of_endsAtom_eq_false hc
    refine ⟨before, c, cs, h.1, hblank, hclose, rfl, fun offset => ⟨rfl, ?_⟩⟩
    rw [form, Form.stop, chars, Text.units_append, Nat.add_assoc]
  | list before items gap closed =>
    rw [Stands] at h
    refine ⟨before, '(', _, h.1, rfl, by decide, rfl, fun offset => ⟨?_, ?_⟩⟩
    · rw [form, Form.start]
    · rw [form, Form.stop]

theorem Stands.exists_begin {layout : Layout} {rest : List Char} (h : layout.Stands rest) :
    ∃ before c cs, Blanks before ∧ Text.isBlank c = false ∧ c ≠ ')' ∧
      layout.chars = before ++ c :: cs := by
  obtain ⟨before, c, cs, hbefore, hblank, hclose, hchars, -⟩ := h.exists_written
  exact ⟨before, c, cs, hbefore, hblank, hclose, hchars⟩

/-- A layout is not empty. -/
theorem Stands.chars_ne_nil {layout : Layout} {rest : List Char} (h : layout.Stands rest) :
    layout.chars ≠ [] := by
  obtain ⟨before, c, cs, -, -, -, hchars⟩ := h.exists_begin
  simp [hchars]

/-- What is left open is left open at the end of the text. -/
theorem Stands.rest_eq_nil {layout : Layout} {rest : List Char} {offset p : Nat}
    (h : layout.Stands rest) (ho : layout.openAt? offset = some p) : rest = [] := by
  cases layout with
  | atom before text => cases ho
  | list before items gap closed =>
    rw [Stands] at h
    rw [openAt?] at ho
    cases closed with
    | true => cases ho
    | false => exact h.2.1 rfl

/-- Where the text goes on behind layouts, they leave nothing open. -/
theorem openAtIn?_eq_none {items : List Layout} {rest : List Char} {offset : Nat}
    (h : StandAll items rest) (hrest : rest ≠ []) : openAtIn? offset items = none := by
  induction items generalizing offset with
  | nil => rfl
  | cons item items ih =>
    rw [StandAll] at h
    rw [openAtIn?, ih h.2, Option.or_none, Option.eq_none_iff_forall_ne_some]
    intro p hp
    exact hrest (List.append_eq_nil_iff.1 (h.1.rest_eq_nil hp)).2

end Layout

end SatScript
