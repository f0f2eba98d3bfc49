/-!
# SatScript — tables

A table maps names to values and remembers the order in which its names
first came. Setting a name that is present replaces its value in place;
a new name goes to the end. No name occurs twice, and the type says so.
Look-up is the view through which the operations are described:
`get?_set`, `get?_ofList`, `get?_map`.
-/

namespace SatScript

/-- The entries after `name` is given `value`: in place if the name is
there, else at the end. -/
def setEntry {α : Type} (name : String) (value : α) : List (String × α) → List (String × α)
  | [] => [(name, value)]
  | entry :: rest =>
    if entry.1 = name then (name, value) :: rest else entry :: setEntry name value rest

/-- Setting an entry adds its name only if it is new. -/
theorem map_fst_setEntry {α : Type} (name : String) (value : α) (entries : List (String × α)) :
    (setEntry name value entries).map Prod.fst =
      if name ∈ entries.map Prod.fst then entries.map Prod.fst
      else entries.map Prod.fst ++ [name] := by
  induction entries with
  | nil => simp [setEntry]
  | cons entry rest ih =>
    by_cases h : entry.1 = name
    · simp [setEntry, h]
    · have h' : name ≠ entry.1 := fun e => h e.symm
      simp only [setEntry, h, if_false, List.map_cons, ih, List.mem_cons, h', false_or]
      split <;> simp

/-- Names stay without repetition when an entry is set. -/
theorem nodup_setEntry {α : Type} (name : String) (value : α) {entries : List (String × α)}
    (h : (entries.map Prod.fst).Nodup) : ((setEntry name value entries).map Prod.fst).Nodup := by
  rw [map_fst_setEntry]
  split
  · exact h
  · rename_i hn
    rw [List.nodup_append]
    refine ⟨h, by simp, ?_⟩
    intro a ha b hb heq
    simp only [List.mem_singleton] at hb
    exact hn (hb ▸ heq ▸ ha)

/-- Names with their values, in the order in which the names first came. -/
structure Table (α : Type) where
  entries : List (String × α)
  nodup : (entries.map Prod.fst).Nodup := by simp
deriving DecidableEq

namespace Table

variable {α β : Type}

/-- No names. -/
def empty : Table α := { entries := [] }

instance : Inhabited (Table α) := ⟨empty⟩

/-- The names, in order. -/
def keys (table : Table α) : List String := table.entries.map Prod.fst

/-- The value of a name, if it has one. -/
def get? (table : Table α) (name : String) : Option α := table.entries.lookup name

/-- Whether the name has a value. -/
def contains (table : Table α) (name : String) : Bool := (table.get? name).isSome

/-- Give the name a value: in place if the name is there, else at the end. -/
def set (table : Table α) (name : String) (value : α) : Table α :=
  { entries := setEntry name value table.entries
    nodup := nodup_setEntry name value table.nodup }

/-- Set the entries one after another, so that of several for one name the
last counts and the first gives the place. -/
def setAll (table : Table α) (entries : List (String × α)) : Table α :=
  entries.foldl (fun t e => t.set e.1 e.2) table

/-- The table of a list of entries; of several for one name the last counts. -/
def ofList (entries : List (String × α)) : Table α := empty.setAll entries

/-- Change every value, keeping names and order. -/
def map (f : α → β) (table : Table α) : Table β :=
  { entries := table.entries.map fun e => (e.1, f e.2)
    nodup := by
      have h : (table.entries.map fun e => (e.1, f e.2)).map Prod.fst =
          table.entries.map Prod.fst := by simp
      rw [h]
      exact table.nodup }

/-! ## What the operations do to look-up -/

@[simp] theorem get?_empty (name : String) : (empty : Table α).get? name = none := rfl

theorem lookup_setEntry (name other : String) (value : α) (entries : List (String × α)) :
    (setEntry name value entries).lookup other =
      if other = name then some value else entries.lookup other := by
  induction entries with
  | nil =>
    by_cases h : other = name
    · simp [setEntry, h]
    · simp [setEntry, List.lookup_cons, h, beq_false_of_ne h]
  | cons entry rest ih =>
    obtain ⟨k, v⟩ := entry
    by_cases hk : k = name
    · subst hk
      by_cases h : other = k
      · simp [setEntry, h]
      · simp [setEntry, List.lookup_cons, h, beq_false_of_ne h]
    · by_cases h : other = k
      · subst h
        simp [setEntry, hk]
      · simp [setEntry, List.lookup_cons, hk, beq_false_of_ne h, ih]

/-- **Setting a name changes the look-up of that name and of no other.** -/
@[simp] theorem get?_set (table : Table α) (name other : String) (value : α) :
    (table.set name value).get? other = if other = name then some value else table.get? other :=
  lookup_setEntry name other value table.entries

/-- Setting entries one after another appends to what was set before. -/
theorem setAll_append (table : Table α) (first second : List (String × α)) :
    table.setAll (first ++ second) = (table.setAll first).setAll second := by
  simp [setAll]

/-- Setting entries one after another: the last entry of a name decides, and a
name without one keeps its value. -/
theorem get?_setAll (table : Table α) (entries : List (String × α)) (name : String) :
    (table.setAll entries).get? name = (entries.reverse.lookup name).or (table.get? name) := by
  induction entries generalizing table with
  | nil => rfl
  | cons entry entries ih =>
    obtain ⟨key, value⟩ := entry
    have hset : table.setAll ((key, value) :: entries) = (table.set key value).setAll entries := rfl
    have hlast : [(key, value)].lookup name = if name = key then some value else none :=
      lookup_setEntry key name value []
    rw [hset, ih, get?_set, List.reverse_cons, List.lookup_append, hlast, Option.or_assoc]
    by_cases h : name = key <;> simp [h]

/-- **The table of a list of entries gives a name the value of its last
entry.** -/
theorem get?_ofList (entries : List (String × α)) (name : String) :
    (ofList entries).get? name = entries.reverse.lookup name := by
  rw [ofList, get?_setAll, get?_empty, Option.or_none]

/-- Setting entries of new names, none of them twice, puts them at the end. -/
theorem entries_setAll {table : Table α} {entries : List (String × α)}
    (h : ((table.entries ++ entries).map Prod.fst).Nodup) :
    (table.setAll entries).entries = table.entries ++ entries := by
  induction entries generalizing table with
  | nil => rw [List.append_nil]; rfl
  | cons entry entries ih =>
    -- an entry of a new name is put at the end
    have hset : ∀ before : List (String × α), entry.1 ∉ before.map Prod.fst →
        setEntry entry.1 entry.2 before = before ++ [entry] := by
      intro before hnew
      induction before with
      | nil => rfl
      | cons first before ih =>
        have hne : first.1 ≠ entry.1 := fun heq => hnew (by simp [heq])
        have hmore : entry.1 ∉ before.map Prod.fst := fun hmem =>
          hnew (List.mem_cons_of_mem _ hmem)
        rw [setEntry, if_neg hne, ih hmore, List.cons_append]
    have hnew : entry.1 ∉ table.entries.map Prod.fst := by
      intro hmem
      rw [List.map_append] at h
      exact (List.nodup_append.1 h).2.2 _ hmem _ List.mem_cons_self rfl
    have hentries : (table.set entry.1 entry.2).entries = table.entries ++ [entry] := hset _ hnew
    rw [show table.setAll (entry :: entries) = (table.set entry.1 entry.2).setAll entries from rfl,
      ih (by rw [hentries, List.append_assoc]; exact h), hentries, List.append_assoc]
    rfl

/-- **Entries of which no two have one name are those of their table.** -/
theorem entries_ofList {entries : List (String × α)} (h : (entries.map Prod.fst).Nodup) :
    (ofList entries).entries = entries := entries_setAll h

/-- A table is that of its entries. -/
theorem ofList_entries (table : Table α) : ofList table.entries = table := by
  have hentries := entries_ofList table.nodup
  generalize ofList table.entries = other at hentries
  cases table
  cases other
  cases hentries
  rfl

/-- The value of a name is that of its entry. -/
theorem get?_of_mem {table : Table α} {name : String} {value : α}
    (h : (name, value) ∈ table.entries) : table.get? name = some value := by
  obtain ⟨before, after, heq⟩ := List.append_of_mem h
  have hnodup := table.nodup
  rw [heq, List.map_append, List.nodup_append] at hnodup
  refine List.lookup_eq_some_iff.2 ⟨before, after, heq, fun entry hentry => ?_⟩
  have hne := hnodup.2.2 entry.1 (List.mem_map_of_mem hentry) name List.mem_cons_self
  simpa using Ne.symm hne

/-- A name that has a value has an entry. -/
theorem mem_of_get? {table : Table α} {name : String} {value : α}
    (h : table.get? name = some value) : (name, value) ∈ table.entries := by
  obtain ⟨before, after, heq, -⟩ := List.lookup_eq_some_iff.1 h
  rw [heq]
  exact List.mem_append_right _ List.mem_cons_self

/-- A name has a value just if it is one of the names. -/
theorem mem_keys_iff {table : Table α} {name : String} :
    name ∈ table.keys ↔ ∃ value, table.get? name = some value := by
  constructor
  · intro h
    obtain ⟨⟨_, value⟩, hmem, rfl⟩ := List.mem_map.1 h
    exact ⟨value, get?_of_mem hmem⟩
  · rintro ⟨value, h⟩
    exact List.mem_map_of_mem (mem_of_get? h)

/-! ## Changing every value -/

/-- The value of a name is changed as every value is. -/
@[simp] theorem get?_map (f : α → β) (table : Table α) (name : String) :
    (table.map f).get? name = (table.get? name).map f := by
  show (table.entries.map fun e => (e.1, f e.2)).lookup name = (table.entries.lookup name).map f
  induction table.entries with
  | nil => rfl
  | cons entry rest ih =>
    obtain ⟨key, value⟩ := entry
    by_cases h : name = key
    · simp [h]
    · simp [List.lookup_cons, beq_false_of_ne h, ih]

/-- It is the same to change the values before a name is set and after. -/
theorem map_set (f : α → β) (table : Table α) (name : String) (value : α) :
    (table.set name value).map f = (table.map f).set name (f value) := by
  have hentries (entries : List (String × α)) :
      (setEntry name value entries).map (fun e => (e.1, f e.2)) =
        setEntry name (f value) (entries.map fun e => (e.1, f e.2)) := by
    induction entries with
    | nil => rfl
    | cons entry rest ih =>
      rw [setEntry, List.map_cons, setEntry]
      split
      · rfl
      · rw [List.map_cons, ih]
  simp only [set, map, hentries]

end Table

end SatScript
