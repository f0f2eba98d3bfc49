import Mathlib.Data.List.Forall2
/-!
# SatScript — computations that may fail

A computation made of two steps gives a value exactly if both steps do,
and one made of a list of steps if each does. Every proof about lowering,
elaboration or renaming takes computations apart this way and not by
unfolding. Of two computations one may mend the other: they come to the same,
but for one way to fail, which it does not know (`Mends`).
-/

namespace SatScript

variable {ε α β : Type}

/-- **Two steps succeed exactly if the first does and the second does with
its value.** -/
theorem bind_eq_ok_iff {first : Except ε α} {next : α → Except ε β} {b : β} :
    (first >>= next) = .ok b ↔ ∃ a, first = .ok a ∧ next a = .ok b := by
  cases first with
  | error e => exact ⟨fun h => (nomatch h), fun ⟨_, h, _⟩ => (nomatch h)⟩
  | ok a => exact ⟨fun h => ⟨a, rfl, h⟩, fun ⟨_, h, hn⟩ => by cases h; exact hn⟩

/-- A value that is handed on unchanged is the value of the whole. -/
theorem pure_eq_ok_iff {a b : α} : (pure a : Except ε α) = .ok b ↔ a = b :=
  ⟨fun h => by cases h; rfl, fun h => by rw [h]; rfl⟩

/-- Lists that are related item by item agree in what related items agree in. -/
theorem map_eq_of_forall₂ {γ : Type} {R : α → β → Prop} {f : α → γ} {g : β → γ}
    (hR : ∀ item value, R item value → g value = f item) {items : List α} {values : List β}
    (h : List.Forall₂ R items values) : values.map g = items.map f := by
  induction h with
  | nil => rfl
  | cons hfirst _ ih => rw [List.map_cons, List.map_cons, hR _ _ hfirst, ih]

/-- Of two lists that are related item by item, each item of the second is
related to one of the first. -/
theorem exists_of_mem_right {R : α → β → Prop} {items : List α} {values : List β}
    (h : List.Forall₂ R items values) {value : β} (hmem : value ∈ values) :
    ∃ item ∈ items, R item value := by
  induction h with
  | nil => cases hmem
  | @cons item first items values hfirst hmore ih =>
    rcases List.mem_cons.1 hmem with rfl | hmem
    · exact ⟨item, List.mem_cons_self, hfirst⟩
    · obtain ⟨other, hother, hrelated⟩ := ih hmem
      exact ⟨other, List.mem_cons_of_mem _ hother, hrelated⟩

/-- Of two lists that are related item by item, each item of the first is
related to one of the second. -/
theorem exists_of_mem_left {R : α → β → Prop} {items : List α} {values : List β}
    (h : List.Forall₂ R items values) {item : α} (hmem : item ∈ items) :
    ∃ value ∈ values, R item value := exists_of_mem_right h.flip hmem

/-- **Steps for each item of a list give their values in order.** -/
theorem forall₂_of_mapM_eq_ok {f : α → Except ε β} {items : List α} {values : List β}
    (h : items.mapM f = .ok values) : List.Forall₂ (fun a b => f a = .ok b) items values := by
  induction items generalizing values with
  | nil =>
    rw [List.mapM_nil, pure_eq_ok_iff] at h
    rw [← h]
    exact .nil
  | cons item items ih =>
    rw [List.mapM_cons] at h
    obtain ⟨value, hvalue, h⟩ := bind_eq_ok_iff.1 h
    obtain ⟨more, hmore, h⟩ := bind_eq_ok_iff.1 h
    rw [← pure_eq_ok_iff.1 h]
    exact .cons hvalue (ih hmore)

/-- And steps that give a value each for the items of a list give the list of
these values. -/
theorem mapM_eq_ok_of_forall₂ {f : α → Except ε β} {items : List α} {values : List β}
    (h : List.Forall₂ (fun a b => f a = .ok b) items values) : items.mapM f = .ok values := by
  induction h with
  | nil => rfl
  | cons hvalue _ ih => rw [List.mapM_cons, hvalue, ih]; rfl

/-- Where there is a value for each item there is a list of values. -/
theorem exists_mapM_eq_ok {f : α → Except ε β} {items : List α}
    (h : ∀ item ∈ items, ∃ value, f item = .ok value) : ∃ values, items.mapM f = .ok values := by
  induction items with
  | nil => exact ⟨[], rfl⟩
  | cons item items ih =>
    obtain ⟨value, hvalue⟩ := h item List.mem_cons_self
    obtain ⟨values, hvalues⟩ := ih fun other hother => h other (List.mem_cons_of_mem _ hother)
    exact ⟨value :: values, by rw [List.mapM_cons, hvalue, hvalues]; rfl⟩

/-! ## Failing in some way -/

variable {fails : ε → Prop} {move : ε → ε}

/-- A computation does not fail in this way. -/
def Avoids (fails : ε → Prop) (computation : Except ε α) : Prop :=
  ∀ fault, computation = .error fault → ¬ fails fault

namespace Avoids

theorem ok (value : α) : Avoids fails (.ok value) := fun _ h => nomatch h

theorem error {fault : ε} (h : ¬ fails fault) : Avoids fails (.error fault : Except ε α) := by
  intro other hother
  cases hother
  exact h

/-- Two steps do not fail in this way if neither does. -/
theorem bind {first : Except ε α} {next : α → Except ε β} (hfirst : Avoids fails first)
    (hnext : ∀ value, first = .ok value → Avoids fails (next value)) :
    Avoids fails (first >>= next) := by
  cases first with
  | error fault => exact .error (hfirst fault rfl)
  | ok value => exact hnext value rfl

/-- If two steps do not fail in this way, the first does not. -/
theorem of_bind {first : Except ε α} {next : α → Except ε β}
    (h : Avoids fails (first >>= next)) : Avoids fails first := by
  cases first with
  | error fault => exact .error (h fault rfl)
  | ok value => exact .ok value

/-- How a computation fails has nothing to do with what its value is changed to. -/
theorem map_iff {computation : Except ε α} (f : α → β) :
    Avoids fails (computation.map f) ↔ Avoids fails computation := by
  cases computation with
  | error fault => exact ⟨fun h => .error (h fault rfl), fun h => .error (h fault rfl)⟩
  | ok value => exact ⟨fun _ => .ok value, fun _ => .ok (f value)⟩

end Avoids

/-- A computation that does not fail in some way, and comes to what another
comes to, unless that one fails so; faults are moved. -/
structure Mends (fails : ε → Prop) (move : ε → ε) (before after : Except ε α) : Prop where
  avoids : Avoids fails after
  same : Avoids fails before → after = before.mapError move

namespace Mends

theorem ok (value : α) : Mends fails move (.ok value) (.ok value) := ⟨.ok value, fun _ => rfl⟩

theorem error {fault fault' : ε} (hmove : fault' = move fault) (h : ¬ fails fault') :
    Mends fails move (.error fault : Except ε α) (.error fault') :=
  ⟨.error h, fun _ => by rw [hmove]; rfl⟩

/-- A fault of this kind may be mended by anything that does not fail so. -/
theorem of_fails {fault : ε} {after : Except ε α} (h : fails fault) (hafter : Avoids fails after) :
    Mends fails move (.error fault) after :=
  ⟨hafter, fun hbefore => absurd h (hbefore fault rfl)⟩

/-- Nothing has to be mended. -/
theorem refl {computation : Except ε α} (h : Avoids fails computation) :
    Mends fails id computation computation :=
  ⟨h, fun _ => by cases computation <;> rfl⟩

/-- Two steps are mended one after the other. -/
theorem bind {before after : Except ε α} {next next' : α → Except ε β}
    (h : Mends fails move before after)
    (hnext : ∀ value, Mends fails move (next value) (next' value)) :
    Mends fails move (before >>= next) (after >>= next') := by
  refine ⟨h.avoids.bind fun value _ => (hnext value).avoids, fun hbefore => ?_⟩
  rw [h.same hbefore.of_bind]
  cases before with
  | error fault => rfl
  | ok value => exact (hnext value).same hbefore

/-- Faults that are told otherwise are mended as they were. -/
theorem mapError {δ : Type} {fails' : δ → Prop} {move' : δ → δ} {f : ε → δ}
    {before after : Except ε α} (h : Mends fails move before after)
    (hfails : ∀ fault, fails' (f fault) ↔ fails fault)
    (hmove : ∀ fault, move' (f fault) = f (move fault)) :
    Mends fails' move' (before.mapError f) (after.mapError f) := by
  constructor
  · cases after with
    | ok value => exact .ok value
    | error fault => exact .error fun hfault => h.avoids fault rfl ((hfails fault).1 hfault)
  · intro hbefore
    have havoids : Avoids fails before := by
      rintro fault rfl hfault
      exact hbefore (f fault) rfl ((hfails fault).2 hfault)
    rw [h.same havoids]
    cases before with
    | ok value => rfl
    | error fault => exact congrArg Except.error (hmove fault).symm

end Mends

end SatScript
