import SatScript.Proofs.Rename.Made
/-!
# SatScript — scopes under a fresh name

A new name that no atom bears can be told from every name of a script. So
after a renaming different names are still different (`Bears.name_image_ne`),
and what a name resolves to is found again under its new name, through every
frame of the scope (`Follows`): bindings, also those that shadow others or
bind one name twice, keep it so (`Follows.extend`). The walk carries this
along, and every name of a script is kept (`carries_kept`).
-/

namespace SatScript

/-- What a name resolves to where bindings introduce some: of several for one name the
last counts. -/
theorem Occurrence.resolve_extend (globals : List String) (scope : Scope Target)
    (bindings : List (String × Target)) (text : String) :
    resolve globals (scope.extend bindings) text =
      (bindings.reverse.lookup text).or (resolve globals scope text) := by
  rw [resolve, Scope.lookup_extend, Table.get?_ofList, resolve]
  cases bindings.reverse.lookup text <;> rfl

namespace Renaming

variable {source text : String} {globals globals' : List String} {target found : Target}
variable {newName : String} {edits : List Edit}

/-! ## Names and their images -/

/-- The image of the target has the new name, and that of another the name it had. -/
theorem name_image (found : Target) :
    (image target newName edits found).name =
      if found.same target then newName else found.name := by
  cases found <;> rfl

/-- A name resolves to something of this name, where the new name is fresh: the name is
not the new one, and it is that of the target if that is what it resolves to. -/
structure Bears (target : Target) (newName text : String) (found : Target) : Prop where
  name_eq : found.name = text
  ne_new : text ≠ newName
  alike : found.same target = true → text = target.name

/-- **What had different names has different names after the renaming.** -/
theorem Bears.name_image_ne (h : Bears target newName text found) {other : String}
    {bound : Target} (hother : Bears target newName other bound) (hne : text ≠ other) :
    (image target newName edits found).name ≠ (image target newName edits bound).name := by
  rw [name_image, name_image, h.name_eq, hother.name_eq]
  by_cases hfound : found.same target = true
  · by_cases hbound : bound.same target = true
    · exact absurd ((h.alike hfound).trans (hother.alike hbound).symm) hne
    · rw [if_pos hfound, if_neg hbound]
      exact Ne.symm hother.ne_new
  · rw [if_neg hfound]
    split
    · exact h.ne_new
    · exact hne

/-- A name that is not the new one is none that a renaming gives to something else. -/
theorem Bears.name_image_ne_of_ne {bound : Target} (h : Bears target newName text bound)
    {other : String} (hnew : other ≠ newName) (hne : other ≠ text) :
    other ≠ (image target newName edits bound).name := by
  rw [name_image, h.name_eq]
  split
  · exact hnew
  · exact hne

/-! ## Bindings and their images -/

/-- Bindings after a renaming. -/
def imageBindings (target : Target) (newName : String) (edits : List Edit)
    (bindings : List (String × Target)) : List (String × Target) :=
  bindings.map fun binding =>
    ((image target newName edits binding.2).name, image target newName edits binding.2)

variable {bindings : List (String × Target)}

/-- What is bound is bound under the name of its image. -/
theorem lookup_imageBindings
    (hbindings : ∀ binding ∈ bindings, Bears target newName binding.1 binding.2)
    (h : bindings.lookup text = some found) :
    (imageBindings target newName edits bindings).lookup (image target newName edits found).name =
      some (image target newName edits found) := by
  induction bindings with
  | nil => cases h
  | cons binding bindings ih =>
    obtain ⟨hfirst, hmore⟩ := List.forall_mem_cons.1 hbindings
    rw [imageBindings, List.map_cons, List.lookup_cons]
    by_cases hname : text = binding.1
    · have hfound : binding.2 = found := by
        rw [List.lookup_cons, beq_iff_eq.2 hname] at h
        exact Option.some.inj h
      rw [hfound, beq_self_eq_true]
    · -- the first binding has another name, also after the renaming
      rw [List.lookup_cons, beq_false_of_ne hname] at h
      obtain ⟨before, after, heq, -⟩ := List.lookup_eq_some_iff.1 h
      have hbears : Bears target newName text found :=
        hmore (text, found) (by rw [heq]; exact List.mem_append_right _ List.mem_cons_self)
      rw [beq_false_of_ne (hbears.name_image_ne hfirst hname)]
      exact ih hmore h

/-- A name that is no image of a bound one is not bound. -/
theorem lookup_imageBindings_eq_none
    (h : ∀ binding ∈ bindings, text ≠ (image target newName edits binding.2).name) :
    (imageBindings target newName edits bindings).lookup text = none := by
  refine List.lookup_eq_none_iff.2 fun entry hentry => ?_
  obtain ⟨binding, hbinding, rfl⟩ := List.mem_map.1 hentry
  exact bne_iff_ne.2 (h binding hbinding)

/-! ## Scopes -/

/-- A scope follows another through a renaming: what a name resolves to before, its image
has the name of after, and a name that was unknown still is. -/
structure Follows (globals globals' : List String) (target : Target) (newName : String)
    (edits : List Edit) (scope scope' : Scope Target) : Prop where
  bears : ∀ text found, Occurrence.resolve globals scope text = some found →
    Bears target newName text found
  resolve_image : ∀ text found, Occurrence.resolve globals scope text = some found →
    Occurrence.resolve globals' scope' (image target newName edits found).name =
      some (image target newName edits found)
  unknown : ∀ text, text ≠ newName → Occurrence.resolve globals scope text = none →
    Occurrence.resolve globals' scope' text = none

/-- Without locals a scope follows the other if the globals do. -/
theorem follows_empty (hnew : newName ∉ globals)
    (hglobals : ∀ name ∈ globals, (image target newName edits (.global name)).name ∈ globals')
    (hglobals' : ∀ name ∈ globals', name ≠ newName → name ∈ globals) :
    Follows globals globals' target newName edits Scope.empty Scope.empty := by
  have hresolve : ∀ (names : List String) (text : String),
      Occurrence.resolve names Scope.empty text =
        if text ∈ names then some (.global text) else none := by
    intro names text
    rw [Occurrence.resolve, Scope.lookup_empty]
    simp only [List.contains_iff_mem]
  refine ⟨fun text found hfound => ?bears, fun text found hfound => ?image,
    fun text hne hunknown => ?unknown⟩
  case bears =>
    rw [hresolve] at hfound
    split at hfound
    · rename_i hmem
      cases hfound
      refine ⟨rfl, fun heq => hnew (heq ▸ hmem), fun hsame => ?_⟩
      cases target with
      | global name => exact beq_iff_eq.1 hsame
      | «local» name home start => cases hsame
    · cases hfound
  case image =>
    rw [hresolve] at hfound
    split at hfound
    · rename_i hmem
      cases hfound
      rw [hresolve, if_pos (hglobals text hmem)]
      rfl
    · cases hfound
  case unknown =>
    rw [hresolve] at hunknown ⊢
    split at hunknown
    · cases hunknown
    · rename_i hmem
      exact if_neg fun hmem' => hmem (hglobals' text hmem' hne)

variable {scope scope' : Scope Target}

/-- **A scope goes on to follow the other inside of bindings**: of the bindings of one name
the last counts before and after, and no binding comes between a name and what it
resolves to around. -/
theorem Follows.extend (h : Follows globals globals' target newName edits scope scope')
    (hbindings : ∀ binding ∈ bindings, Bears target newName binding.1 binding.2) :
    Follows globals globals' target newName edits (scope.extend bindings)
      (scope'.extend (imageBindings target newName edits bindings)) := by
  have hreverse : ∀ binding ∈ bindings.reverse, Bears target newName binding.1 binding.2 :=
    fun binding hbinding => hbindings binding (List.mem_reverse.1 hbinding)
  have himages : (imageBindings target newName edits bindings).reverse =
      imageBindings target newName edits bindings.reverse := List.map_reverse.symm
  have hother : ∀ {text : String}, bindings.reverse.lookup text = none →
      ∀ binding ∈ bindings.reverse, text ≠ binding.1 := fun hnone binding hbinding =>
    bne_iff_ne.1 (List.lookup_eq_none_iff.1 hnone binding hbinding)
  refine ⟨fun text found hfound => ?bears, fun text found hfound => ?image,
    fun text hne hunknown => ?unknown⟩
  case bears =>
    rw [Occurrence.resolve_extend] at hfound
    cases hlookup : bindings.reverse.lookup text with
    | some bound =>
      rw [hlookup] at hfound
      cases hfound
      obtain ⟨before, after, heq, -⟩ := List.lookup_eq_some_iff.1 hlookup
      exact hreverse (text, found) (by rw [heq]; exact List.mem_append_right _ List.mem_cons_self)
    | none =>
      rw [hlookup] at hfound
      exact h.bears text found hfound
  case image =>
    rw [Occurrence.resolve_extend] at hfound
    rw [Occurrence.resolve_extend, himages]
    cases hlookup : bindings.reverse.lookup text with
    | some bound =>
      rw [hlookup] at hfound
      cases hfound
      rw [lookup_imageBindings hreverse hlookup]
      rfl
    | none =>
      rw [hlookup] at hfound
      rw [lookup_imageBindings_eq_none fun binding hbinding =>
        (h.bears text found hfound).name_image_ne (hreverse binding hbinding)
          (hother hlookup binding hbinding)]
      exact h.resolve_image text found hfound
  case unknown =>
    rw [Occurrence.resolve_extend, Option.or_eq_none_iff] at hunknown
    rw [Occurrence.resolve_extend, himages,
      lookup_imageBindings_eq_none fun binding hbinding =>
        (hreverse binding hbinding).name_image_ne_of_ne hne (hother hunknown.1 binding hbinding)]
    exact h.unknown text hne hunknown.2

/-! ## The walk -/

variable {mark : Nat → Bool} {leaves : List Leaf}

/-- The local of a marked binder is the image of the local. -/
theorem image_binder {name : String} {start stop : Nat}
    (hmove : ∀ offset : Nat, (Form.shifted edits offset : Int) = shift edits offset)
    (hmark : mark start =
      Sources.refersTo target ⟨name, start, stop, some (.local name source start)⟩) :
    image target newName edits (.local name source start) =
      .local (if mark start then newName else name) source (Form.shifted edits start) := by
  rw [hmark, hmove]
  rfl

/-- A named binding is marked as its name refers to the target, whatever stands behind
the name. -/
theorem marked_of_binding {name : String} {start stop start' stop' : Nat} {items forms : List Form}
    (h : Occurrence.FaithfulBindings mark target source globals scope
      (.list (.atom name start stop :: items) start' stop' :: forms)) :
    Occurrence.Marked mark target ⟨name, start, stop, some (.local name source start)⟩ ∧
      Occurrence.FaithfulBindings mark target source globals scope forms := by
  cases items with
  | nil =>
    rw [Occurrence.FaithfulBindings] at h
    exact h
  | cons value tail =>
    rw [Occurrence.FaithfulBindings] at h
    exact ⟨h.1, h.2.2⟩

/-- What bindings introduce after the renaming are the images of what they introduced. -/
theorem binders_relabelAll
    (hmove : ∀ offset : Nat, (Form.shifted edits offset : Int) = shift edits offset)
    {forms : List Form}
    (h : Occurrence.FaithfulBindings mark target source globals scope forms) :
    Occurrence.binders source (Form.relabelAll mark newName (Form.shifted edits) forms) =
      imageBindings target newName edits (Occurrence.binders source forms) := by
  induction forms with
  | nil => rfl
  | cons form forms ih =>
    -- what has no name in front is passed over
    have hskip : (∀ name start stop items start' stop',
        form ≠ .list (.atom name start stop :: items) start' stop') →
          Occurrence.FaithfulBindings mark target source globals scope forms := by
      intro hnameless
      rwa [Occurrence.faithfulBindings_of_not_binding
        (fun _ _ _ _ _ _ _ heq => hnameless _ _ _ _ _ _ heq)
        (fun _ _ _ _ _ heq => hnameless _ _ _ _ _ _ heq)] at h
    cases form with
    | atom text start stop => exact ih (hskip fun _ _ _ _ _ _ heq => by cases heq)
    | list items start' stop' =>
      cases items with
      | nil => exact ih (hskip fun _ _ _ _ _ _ heq => by cases heq)
      | cons item items =>
        cases item with
        | list inner start stop => exact ih (hskip fun _ _ _ _ _ _ heq => by cases heq)
        | atom name start stop =>
          obtain ⟨hmarked, hmore⟩ := marked_of_binding h
          rw [Form.relabelAll, Form.relabel, Form.relabelAll, Form.relabel, Occurrence.binders,
            Occurrence.binders, ih hmore, imageBindings, imageBindings, List.map_cons,
            image_binder hmove hmarked.iff_refersTo]
          rfl

/-- **The walk keeps every name under a fresh new one**, whatever is bound on its way. -/
theorem carries_kept
    (hmove : ∀ offset : Nat, (Form.shifted edits offset : Int) = shift edits offset)
    (hfresh : ∀ leaf ∈ leaves, leaf.text ≠ newName)
    (hnamed : Occurrence.NamedAlike target source globals leaves)
    (hempty : Follows globals globals' target newName edits Scope.empty Scope.empty) :
    Occurrence.Carries mark target newName (Form.shifted edits) source globals globals' leaves
      (Follows globals globals' target newName edits) (Kept target newName edits) where
  name := by
    intro scope scope' text start stop hfollows hleaf hmark
    cases hfound : Occurrence.resolve globals scope text with
    | some found =>
      rw [hfound] at hmark
      have hsame : mark start = found.same target := hmark
      have himage := hfollows.resolve_image text found hfound
      rw [name_image, (hfollows.bears text found hfound).name_eq, ← hsame] at himage
      exact himage
    | none =>
      rw [hfound] at hmark
      have hunmarked : mark start = false := hmark
      rw [hunmarked, if_neg Bool.false_ne_true]
      exact hfollows.unknown text (hfresh _ hleaf) hfound
  binder hmark := congrArg some (image_binder hmove hmark).symm
  declared hmark := by
    rw [hmark]
    rfl
  empty := hempty
  extend := by
    intro scope scope' bindings hfollows hin hfaithful
    rw [binders_relabelAll hmove hfaithful]
    refine hfollows.extend fun binding hbinding => ?_
    obtain ⟨name, bound⟩ := binding
    obtain ⟨leaf, hleaf, hname, rfl⟩ := Occurrence.mem_binders hbinding
    -- the name of a binder is an atom, and if it binds the target it bears its name
    refine ⟨rfl, fun heq => hfresh leaf (hin leaf hleaf) (hname.trans heq), fun hsame => ?_⟩
    exact hnamed name (.local name source leaf.start)
      ⟨rfl, rfl, leaf, hin leaf hleaf, hname, rfl⟩ hsame

end Renaming

end SatScript
