import SatScript.Proofs.Layout.Joined
import SatScript.Session.Run
/-!
# SatScript — lists that are left open

Without the strict mode a list that is open at the end of the text is closed
there. The forms show which lists these are: those that no parenthesis at
their end closes, outside of their items. They stand in one another, so one of
them is the innermost (`exists_innermostOpen`), and that one is where the
machine stops in the strict mode (`readOne_open`, `readMore_open`).
`read_strict` puts the two together: the strict mode reads what is read
without it if every list is closed, and else reports the innermost list that is
left open.
-/

namespace SatScript

namespace Group

/-- In a text that is looked at from an offset on, the group is the innermost of
those that are left open: it stands in each of them. -/
structure InnermostOpen (offset : Nat) (cs : List Char) (groups : List Group) (group : Group) :
    Prop where
  mem : group ∈ groups
  opened : ¬ group.ClosedIn offset cs
  inner : ∀ other ∈ groups, ¬ other.ClosedIn offset cs →
    other.start ≤ group.start ∧ group.stop ≤ other.stop

variable {offset : Nat} {cs before : List Char} {firsts groups : List Group} {group other : Group}

/-- The innermost group stays so behind others that are closed or that it stands
in. -/
theorem InnermostOpen.prepend (h : group.InnermostOpen (offset + Text.units before) cs groups)
    (hstands : ∀ other ∈ groups, other.StandsIn (offset + Text.units before) cs)
    (hfirsts : ∀ other ∈ firsts, ¬ other.ClosedIn offset (before ++ cs) →
      other.start ≤ group.start ∧ group.stop ≤ other.stop) :
    group.InnermostOpen offset (before ++ cs) (firsts ++ groups) where
  mem := List.mem_append_right _ h.mem
  opened hclosed := h.opened (((hstands group h.mem).closedIn_append_iff before).1 hclosed)
  inner other hother hopen := by
    rcases List.mem_append.1 hother with hother | hother
    · exact hfirsts other hother hopen
    · refine h.inner other hother fun hclosed => hopen ?_
      exact ((hstands other hother).closedIn_append_iff before).2 hclosed

/-- The innermost group stays so behind a text that holds no group. -/
theorem InnermostOpen.append (h : group.InnermostOpen (offset + Text.units before) cs groups)
    (hstands : ∀ other ∈ groups, other.StandsIn (offset + Text.units before) cs) :
    group.InnermostOpen offset (before ++ cs) groups :=
  @prepend _ _ _ [] _ _ h hstands (List.forall_mem_nil _)

/-- There is one place where the innermost group begins. -/
theorem InnermostOpen.start_eq (h : group.InnermostOpen offset cs groups)
    (hother : other.InnermostOpen offset cs groups) : group.start = other.start :=
  Nat.le_antisymm (hother.inner group h.mem h.opened).1 (h.inner other hother.mem hother.opened).1

end Group

namespace Layout

open Form (groups groupsAll)

/-! ## What a layout leaves open -/

mutual

/-- In a layout that leaves nothing open every list is closed. -/
theorem closedIn_of_openAt?_eq_none : ∀ {layout : Layout} {rest : List Char}
    {offset offset' : Nat}, layout.Stands rest → layout.openAt? offset' = none →
    ∀ group ∈ groups (layout.form offset), group.ClosedIn offset (layout.chars ++ rest)
  | .atom _ _, _, _, _, _, _ => nofun
  | .list before items gap false, _, _, _, _, hopen => by
    rw [openAt?, if_neg Bool.false_ne_true, Option.or_eq_none_iff] at hopen
    cases hopen.2
  | .list before items gap true, rest, offset, _, h, _ => by
    intro group hgroup
    rw [form, groups] at hgroup
    rcases List.mem_cons.1 hgroup with rfl | hgroup
    · exact (closedIn_list_iff h offset).2 rfl
    · rcases items_of_stands h (offset + Text.units before + 1) with hitems | ⟨hnone, -⟩
      · -- the parenthesis stands behind the items, so they leave nothing open
        have hopen := @openAtIn?_eq_none _ _ offset hitems (by simp)
        rw [← units_before_paren] at hgroup
        rw [chars_list_append]
        exact ((standsIn_of_mem_groupsAll hitems group hgroup).closedIn_append_iff _).2
          (closedIn_of_openAtIn?_eq_none hitems hopen group hgroup)
      · rw [hnone] at hgroup
        cases hgroup

/-- In layouts that leave nothing open every list is closed. -/
theorem closedIn_of_openAtIn?_eq_none : ∀ {items : List Layout} {rest : List Char}
    {offset offset' : Nat}, StandAll items rest → openAtIn? offset' items = none →
    ∀ group ∈ groupsAll (forms offset items), group.ClosedIn offset (charsAll items ++ rest)
  | [], _, _, _, _, _ => nofun
  | item :: items, rest, offset, _, h, hopen => by
    intro group hgroup
    rw [StandAll] at h
    rw [openAtIn?, Option.or_eq_none_iff] at hopen
    rw [forms, groupsAll] at hgroup
    rw [charsAll, List.append_assoc]
    rcases List.mem_append.1 hgroup with hgroup | hgroup
    · exact closedIn_of_openAt?_eq_none h.1 hopen.1 group hgroup
    · exact ((standsIn_of_mem_groupsAll h.2 group hgroup).closedIn_append_iff _).2
        (closedIn_of_openAtIn?_eq_none h.2 hopen.2 group hgroup)

end

/-- Layouts that take up nothing are none. -/
theorem eq_nil_of_charsAll {items : List Layout} {rest : List Char} (h : StandAll items rest)
    (hchars : charsAll items = []) : items = [] := by
  cases items with
  | nil => rfl
  | cons item items =>
    rw [StandAll] at h
    rw [charsAll, List.append_eq_nil_iff] at hchars
    exact absurd hchars.1 h.1.chars_ne_nil

/-- What stands behind the parenthesis of a list that is left open stands in the
list. -/
theorem encloses_of_open {before gap rest : List Char} {items : List Layout} {offset : Nat}
    {group : Group} (h : Stands (.list before items gap false) rest)
    (hgroup : group.StandsIn (offset + Text.units (before ++ ['(']))
      (charsAll items ++ (gap ++ (closing false ++ rest)))) :
    offset + Text.units before ≤ group.start ∧
      group.stop ≤ offset + Text.units (chars (.list before items gap false)) := by
  rw [Stands] at h
  obtain ⟨⟨before', rest', -, hstart⟩, hle, -⟩ := hgroup
  have hchars := units_chars_list before gap items false
  rw [units_before_paren] at hstart hle
  simp only [h.2.1 rfl, List.append_nil, Text.units_append] at hle
  omega

mutual

/-- **In a layout that leaves a list open there is an innermost one.** -/
theorem exists_innermostOpen : ∀ {layout : Layout} {rest : List Char} {offset p : Nat},
    layout.Stands rest → layout.openAt? offset = some p →
    ∃ group : Group, group.InnermostOpen offset (layout.chars ++ rest)
      (groups (layout.form offset)) ∧ group.start = p
  | .atom _ _, _, _, _, _, hopen => nomatch hopen
  | .list _ _ _ true, _, _, _, _, hopen => nomatch hopen
  | .list before items gap false, rest, offset, p, h, hopen => by
    have hself : ¬ Group.ClosedIn offset (chars (.list before items gap false) ++ rest)
        ⟨forms (offset + Text.units before + 1) items, offset + Text.units before,
          offset + Text.units (chars (.list before items gap false))⟩ := fun hclosed =>
      nomatch (closedIn_list_iff h offset).1 hclosed
    rw [openAt?, if_neg Bool.false_ne_true] at hopen
    rw [form, groups]
    rcases items_of_stands h (offset + Text.units before + 1) with hitems | ⟨hnone, hin⟩
    · rw [← units_before_paren] at hself hopen ⊢
      rw [chars_list_append] at hself ⊢
      have hstands := fun group => @standsIn_of_mem_groupsAll items
        (offset + Text.units (before ++ ['('])) _ hitems group
      cases hin : openAtIn? (offset + Text.units (before ++ ['('])) items with
      | some q =>
        -- the list that is left open in the items stands in this one
        rw [hin, Option.some_or] at hopen
        cases hopen
        obtain ⟨group, hgroup, hstart⟩ := exists_innermostOpen_in hitems hin
        refine ⟨group, @Group.InnermostOpen.prepend _ _ _ [_] _ _ hgroup hstands
          fun other hother _ => ?_, hstart⟩
        rw [List.mem_singleton.1 hother]
        exact encloses_of_open h (hstands group hgroup.mem)
      | none =>
        rw [hin, Option.none_or] at hopen
        cases hopen
        refine ⟨_, ⟨List.mem_cons_self, hself, fun other hother hother' => ?_⟩, rfl⟩
        rcases List.mem_cons.1 hother with rfl | hother
        · exact ⟨Nat.le_refl _, Nat.le_refl _⟩
        · exact absurd (((hstands other hother).closedIn_append_iff _).2
            (closedIn_of_openAtIn?_eq_none hitems hin other hother)) hother'
    · rw [hin, Option.none_or] at hopen
      cases hopen
      rw [hnone]
      refine ⟨_, ⟨List.mem_singleton_self _, hself, fun other hother _ => ?_⟩, rfl⟩
      rw [List.mem_singleton.1 hother]
      exact ⟨Nat.le_refl _, Nat.le_refl _⟩

theorem exists_innermostOpen_in : ∀ {items : List Layout} {rest : List Char} {offset p : Nat},
    StandAll items rest → openAtIn? offset items = some p →
    ∃ group : Group, group.InnermostOpen offset (charsAll items ++ rest)
      (groupsAll (forms offset items)) ∧ group.start = p
  | [], _, _, _, _, hopen => nomatch hopen
  | item :: items, rest, offset, p, h, hopen => by
    rw [StandAll] at h
    rw [openAtIn?] at hopen
    rw [charsAll, List.append_assoc, forms, groupsAll]
    cases hitem : item.openAt? offset with
    | some q =>
      rw [hitem, Option.some_or] at hopen
      cases hopen
      -- an item that leaves a list open is the last
      obtain ⟨hnil, -⟩ := List.append_eq_nil_iff.1 (h.1.rest_eq_nil hitem)
      obtain rfl := eq_nil_of_charsAll h.2 hnil
      rw [forms, groupsAll, List.append_nil]
      exact exists_innermostOpen h.1 hitem
    | none =>
      rw [hitem, Option.none_or] at hopen
      obtain ⟨group, hgroup, hstart⟩ := exists_innermostOpen_in h.2 hopen
      exact ⟨group, hgroup.prepend (standsIn_of_mem_groupsAll h.2) fun other hother hother' =>
        absurd (closedIn_of_openAt?_eq_none h.1 hitem other hother) hother', hstart⟩

end

end Layout

namespace Piece

open Form (groupsAll)

variable {pieces : List Piece} {gap : List Char} {afterStray : Bool} {offset : Nat}

/-- In a text that leaves nothing open every list is closed. -/
theorem closedIn_of_openAt?_eq_none (h : Laid pieces gap) (hopen : openAt? offset pieces = none) :
    ∀ group ∈ groupsAll (forms afterStray offset gap pieces),
      group.ClosedIn offset (charsAll pieces ++ gap) := by
  induction pieces generalizing afterStray offset with
  | nil =>
    intro group hgroup
    rw [forms] at hgroup
    split at hgroup <;> cases hgroup
  | cons piece pieces ih =>
    intro group hgroup
    rw [charsAll, List.append_assoc]
    cases piece with
    | form layout =>
      rw [Laid] at h
      rw [openAt?, Option.or_eq_none_iff] at hopen
      rw [forms, groupsAll] at hgroup
      rcases List.mem_append.1 hgroup with hgroup | hgroup
      · exact Layout.closedIn_of_openAt?_eq_none h.1 hopen.1 group hgroup
      · exact ((standsIn_of_mem_groupsAll h.2 group hgroup).closedIn_append_iff _).2
          (ih h.2 hopen.2 group hgroup)
    | stray before =>
      rw [Laid] at h
      rw [openAt?] at hopen
      rw [forms] at hgroup
      exact ((standsIn_of_mem_groupsAll h.2 group hgroup).closedIn_append_iff _).2
        (ih h.2 hopen group hgroup)

/-- **In a text that leaves a list open there is an innermost one.** -/
theorem exists_innermostOpen {p : Nat} (h : Laid pieces gap)
    (hopen : openAt? offset pieces = some p) :
    ∃ group : Group, group.InnermostOpen offset (charsAll pieces ++ gap)
      (groupsAll (forms afterStray offset gap pieces)) ∧ group.start = p := by
  induction pieces generalizing afterStray offset with
  | nil => cases hopen
  | cons piece pieces ih =>
    rw [charsAll, List.append_assoc]
    cases piece with
    | form layout =>
      rw [Laid] at h
      rw [openAt?] at hopen
      rw [forms, groupsAll]
      cases hlayout : layout.openAt? offset with
      | some q =>
        rw [hlayout, Option.some_or] at hopen
        cases hopen
        -- a layout that leaves a list open is the last
        obtain ⟨hnil, rfl⟩ := List.append_eq_nil_iff.1 (h.1.rest_eq_nil hlayout)
        obtain rfl := eq_nil_of_charsAll h.2 hnil
        rw [forms, if_neg (by simp), groupsAll, List.append_nil (Form.groups _)]
        exact Layout.exists_innermostOpen h.1 hlayout
      | none =>
        rw [hlayout, Option.none_or] at hopen
        obtain ⟨group, hgroup, hstart⟩ := ih h.2 hopen
        exact ⟨group, hgroup.prepend (standsIn_of_mem_groupsAll h.2) fun other hother hother' =>
          absurd (Layout.closedIn_of_openAt?_eq_none h.1 hlayout other hother) hother', hstart⟩
    | stray before =>
      rw [Laid] at h
      rw [openAt?] at hopen
      obtain ⟨group, hgroup, hstart⟩ := ih h.2 hopen
      exact ⟨group, hgroup.append (standsIn_of_mem_groupsAll h.2), hstart⟩

end Piece

/-! ## What the strict mode leaves as it is -/

/-- **Without the strict mode a form is read from any state of the machine**, and in it
the same one, or a list is reported. -/
theorem Reader.readFrom_lenient (state : State) (offset : Nat) (cs : List Char) :
    ∃ reading, readFrom false state offset cs = .ok reading ∧
      (readFrom true state offset cs = .ok reading ∨
        ∃ unclosed, readFrom true state offset cs = .error unclosed) := by
  induction cs generalizing state offset with
  | nil =>
    simp only [readFrom, finish]
    obtain ⟨frames, mode⟩ := state
    cases frames with
    | nil => cases pending mode offset <;> exact ⟨_, rfl, .inl rfl⟩
    | cons frame frames => cases pending mode offset <;> exact ⟨_, rfl, .inr ⟨_, rfl⟩⟩
  | cons c cs ih =>
    simp only [readFrom]
    cases step state offset c with
    | more state => exact ih state (offset + Text.width c)
    | done form taken => cases taken <;> exact ⟨_, rfl, .inl rfl⟩

/-! ## What the strict mode reports -/

namespace Cursor

/-- In the strict mode the list that pieces leave open is reported. -/
theorem readMore_open {pieces : List Piece} {gap : List Char} {p : Nat} {afterStray : Bool}
    {offset : Nat} (h : Piece.Laid pieces gap) (hopen : Piece.openAt? offset pieces = some p) :
    readMore true (entering afterStray ⟨offset, Piece.charsAll pieces ++ gap⟩) =
      .error ⟨p, offset + Text.units (Piece.charsAll pieces ++ gap)⟩ := by
  induction pieces generalizing afterStray offset with
  | nil => cases hopen
  | cons piece pieces ih =>
    cases piece with
    | form layout =>
      rw [Piece.Laid] at h
      rw [Piece.openAt?] at hopen
      have hrest := @rest_entering_layout_ne_nil offset afterStray _ _ h.1
      rw [Piece.charsAll, Piece.chars, List.append_assoc]
      cases hlayout : layout.openAt? offset with
      | some q =>
        rw [hlayout, Option.some_or] at hopen
        cases hopen
        have hone := readOne_open h.1 hlayout
        rw [readMore_of_readOne_error hrest ((readOne_entering afterStray _).trans hone),
          h.1.rest_eq_nil hlayout, List.append_nil]
      | none =>
        rw [hlayout, Option.none_or] at hopen
        have hone := readOne_layout h.1 fun _ : true = true => hlayout
        rw [readMore_of_readOne hrest ((readOne_entering afterStray _).trans hone),
          behind_layout h.1, ← entering_false, ih h.2 hopen, Text.units_append layout.chars,
          ← Nat.add_assoc]
        rfl
    | stray before =>
      rw [Piece.Laid] at h
      rw [Piece.openAt?] at hopen
      rw [Piece.charsAll, Piece.chars, List.append_assoc, List.append_assoc,
        List.singleton_append, readMore_of_readOne (rest_entering_ne_nil h.1 rfl)
          ((readOne_entering afterStray _).trans (readOne_stray h.1))]
      -- the parenthesis is passed over, and the list is open behind it
      have hmore := @ih true _ h.2 hopen
      rw [Text.units_append, ← Nat.add_assoc] at hmore
      refine (congrArg ((Reader.emptyAtom (offset + Text.units before) :: ·) <$> ·) hmore).trans ?_
      rw [Text.units_append before, Nat.add_assoc, Nat.add_assoc]
      rfl

end Cursor

/-- What the strict mode makes of a text, given the lists in what is read of it
without that mode: the same if each of them is closed. Else it reports the
innermost list that is left open, from its parenthesis to the end of the text. -/
structure StrictlyRead {α : Type} (cs : List Char) (groups : List Group) (lenient : α)
    (strict : Except Unclosed α) : Prop where
  ok_iff : ∀ value, strict = .ok value ↔
    value = lenient ∧ ∀ group ∈ groups, group.ClosedIn 0 cs
  error_iff : ∀ fault, strict.mapError Unclosed.fault = .error fault ↔
    ∃ group : Group, group.InnermostOpen 0 cs groups ∧
      Text.charAt? group.start cs = some '(' ∧
      fault = .found (.unterminated group.start) ⟨group.start, Text.units cs⟩

namespace StrictlyRead

variable {α : Type} {cs : List Char} {groups : List Group} {lenient : α}

theorem of_closed (hclosed : ∀ group ∈ groups, group.ClosedIn 0 cs) :
    StrictlyRead cs groups lenient (.ok lenient) where
  ok_iff value := by
    rw [Except.ok.injEq, and_iff_left hclosed]
    exact eq_comm
  error_iff fault := by
    refine iff_of_false nofun ?_
    rintro ⟨group, hgroup, -, -⟩
    exact hgroup.opened (hclosed group hgroup.mem)

theorem of_open {p : Nat} (hstands : ∀ group ∈ groups, group.StandsIn 0 cs)
    (hopen : ∃ group : Group, group.InnermostOpen 0 cs groups ∧ group.start = p) :
    StrictlyRead cs groups lenient (.error ⟨p, Text.units cs⟩) := by
  obtain ⟨group, hgroup, rfl⟩ := hopen
  have hparen : Text.charAt? group.start cs = some '(' := by
    obtain ⟨⟨before, rest, rfl, hstart⟩, -, -⟩ := hstands group hgroup.mem
    rw [hstart, Nat.zero_add, Text.charAt?_units]
  refine ⟨fun value => iff_of_false nofun fun hclosed => ?_, fun fault => ⟨fun hfault => ?_, ?_⟩⟩
  · exact hgroup.opened (hclosed.2 group hgroup.mem)
  · cases hfault
    exact ⟨group, hgroup, hparen, rfl⟩
  · -- whichever group is the innermost begins where this one does
    rintro ⟨other, hother, -, rfl⟩
    rw [← hgroup.start_eq hother]
    rfl

end StrictlyRead

namespace Cursor

/-- The strict mode on a layout behind a part of the text. -/
theorem readOne_strict_layout {layout : Layout} {rest : List Char} (h : layout.Stands rest)
    (before : List Char) :
    ∃ reading, readOne false ⟨Text.units before, layout.chars ++ rest⟩ = .ok reading ∧
      StrictlyRead (before ++ (layout.chars ++ rest)) (Form.groups reading.form) reading
        (readOne true ⟨Text.units before, layout.chars ++ rest⟩) ∧
      ∀ group ∈ Form.groups reading.form, group.ClosedIn 0 (before ++ (layout.chars ++ rest)) ∨
        reading.next = ⟨Text.units (before ++ (layout.chars ++ rest)), []⟩ := by
  rw [← Nat.zero_add (Text.units before),
    readOne_layout h fun hstrict => absurd hstrict Bool.false_ne_true]
  refine ⟨_, rfl, ?_⟩
  have hstands := @Layout.standsIn_of_mem_groups layout (0 + Text.units before) rest h
  cases hopen : layout.openAt? (0 + Text.units before) with
  | none =>
    have hclosed : ∀ group ∈ Form.groups (layout.form (0 + Text.units before)),
        group.ClosedIn 0 (before ++ (layout.chars ++ rest)) := fun group hgroup =>
      ((hstands group hgroup).closedIn_append_iff before).2
        (Layout.closedIn_of_openAt?_eq_none h hopen group hgroup)
    rw [readOne_layout h fun _ => hopen]
    exact ⟨.of_closed hclosed, fun group hgroup => .inl (hclosed group hgroup)⟩
  | some p =>
    -- a list is left open where the text ends
    obtain rfl := h.rest_eq_nil hopen
    obtain ⟨group, hgroup, hstart⟩ := Layout.exists_innermostOpen h hopen
    have hunits : 0 + Text.units before + Text.units layout.chars =
        Text.units (before ++ (layout.chars ++ [])) := by
      rw [List.append_nil, Text.units_append, Nat.zero_add]
    rw [readOne_open h hopen, hunits]
    exact ⟨.of_open (fun other hother => (hstands other hother).append before)
      ⟨group, hgroup.append hstands, hstart⟩, fun _ _ => .inr rfl⟩

/-- The strict mode on one form, which is read behind a part of the text. -/
theorem readOne_strict (before rest : List Char) :
    ∃ reading, readOne false ⟨Text.units before, rest⟩ = .ok reading ∧
      StrictlyRead (before ++ rest) (Form.groups reading.form) reading
        (readOne true ⟨Text.units before, rest⟩) ∧
      ∀ group ∈ Form.groups reading.form, group.ClosedIn 0 (before ++ rest) ∨
        reading.next = ⟨Text.units (before ++ rest), []⟩ := by
  obtain ⟨pieces, gap, rfl, hlaid⟩ := exists_pieces rest
  cases pieces with
  | nil =>
    -- an empty atom is read, and there is no list in it
    rw [Piece.charsAll, List.nil_append, readOne_blanks hlaid, readOne_blanks hlaid]
    exact ⟨_, rfl, .of_closed (List.forall_mem_nil _), List.forall_mem_nil _⟩
  | cons piece pieces =>
    cases piece with
    | stray blanks =>
      rw [Piece.Laid] at hlaid
      rw [Piece.charsAll, Piece.chars, List.append_assoc, List.append_assoc,
        List.singleton_append, readOne_stray hlaid.1, readOne_stray hlaid.1]
      exact ⟨_, rfl, .of_closed (List.forall_mem_nil _), List.forall_mem_nil _⟩
    | form layout =>
      rw [Piece.Laid] at hlaid
      rw [Piece.charsAll, Piece.chars, List.append_assoc]
      exact readOne_strict_layout hlaid.1 before

end Cursor

/-- **The strict mode rejects the texts that leave a list open, and changes
nothing else.** At every offset a form is read without it, and if a list in
that form is left open, the text was read to its end. The strict mode then
reports the innermost of these lists, and else reads the same form and stops at
the same position; and so it is for all forms of a text. -/
theorem read_strict (cs : List Char) :
    (∀ offset, ∃ reading, readAt false cs offset = .ok reading ∧
      StrictlyRead cs (Form.groups reading.form) reading (readAt true cs offset) ∧
      ∀ group ∈ Form.groups reading.form,
        group.ClosedIn 0 cs ∨ reading.next = ⟨Text.units cs, []⟩) ∧
    readAll false cs = .ok (forms cs) ∧
      StrictlyRead cs (Form.groupsAll (forms cs)) (forms cs) (readAll true cs) := by
  refine ⟨fun offset => ?_, ?_⟩
  · cases hrest : Text.after? offset cs with
    | none =>
      -- nothing is left of the text at the offset, or an atom begins with half a character
      have hhalf := (Text.onward_of_after? offset cs).2 hrest
      rw [readAt, readAt, Cursor.atOffset]
      cases honward : Text.onward offset cs with
      | nil => exact ⟨_, rfl, .of_closed (List.forall_mem_nil _), List.forall_mem_nil _⟩
      | cons c more =>
        obtain rfl : c = '\uFFFD' := hhalf c (by rw [honward]; rfl)
        obtain ⟨text, start, stop, next, hread⟩ :=
          Cursor.exists_readOne_atom (c := '\uFFFD') (by decide) offset more
        rw [hread, hread]
        exact ⟨_, rfl, .of_closed (List.forall_mem_nil _), List.forall_mem_nil _⟩
    | some rest =>
      have honward := (Text.onward_of_after? offset cs).1 rest hrest
      obtain ⟨before, rfl, rfl⟩ := Text.exists_of_after? hrest
      rw [readAt, readAt, Cursor.atOffset, honward]
      exact Cursor.readOne_strict before rest
  · obtain ⟨pieces, gap, rfl, hlaid⟩ := exists_pieces cs
    rw [forms_pieces hlaid]
    refine ⟨readAll_pieces hlaid nofun, ?_⟩
    cases hopen : Piece.openAt? 0 pieces with
    | none =>
      rw [readAll_pieces hlaid fun _ => hopen]
      exact .of_closed (Piece.closedIn_of_openAt?_eq_none hlaid hopen)
    | some p =>
      have herror := @Cursor.readMore_open pieces gap p false 0 hlaid hopen
      rw [Nat.zero_add] at herror
      rw [readAll, Cursor.readAll, Cursor.ofText, ← Cursor.entering_false, herror]
      exact .of_open (Piece.standsIn_of_mem_groupsAll hlaid)
        (Piece.exists_innermostOpen hlaid hopen)

/-- A list is closed, and the quoted atom behind it hides the parenthesis that
would close the two around it. -/
example : readAt true "x (f ((a) |)".toList 1 = .error ⟨5, 12⟩ := by cbv

end SatScript
