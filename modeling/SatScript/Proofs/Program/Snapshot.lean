import SatScript.Program.Run
import SatScript.Program.Snapshot
import SatScript.Proofs.Text.Line
/-!
# SatScript — what a snapshot gives of its files

What a path leads to is told by what the components before its last lead to
(`follow_append`). A text that is found is that of the file whose name is the path
without detours (`get?_of_status`). A path without detours leads to the file of
that name just if nothing above it is a file (`status_eq_text_iff`), so a script is
read from a snapshot as it was put there (`readScript_ofFiles`).
-/

namespace SatScript

/-! ## Paths and their components -/

namespace Path

variable {front back : List (List Char)}

/-- A path of components is put together from two parts of them. -/
theorem ofComponents_append (hfront : front ≠ []) (hback : back ≠ []) :
    ofComponents (front ++ back) = ofComponents front ++ "/" ++ ofComponents back := by
  have hjoin : ['/'].intercalate (front ++ back) =
      ['/'].intercalate front ++ ['/'] ++ ['/'].intercalate back := by
    induction front with
    | nil => exact absurd rfl hfront
    | cons part front ih =>
      cases front with
      | nil =>
        rw [List.singleton_append, List.intercalate_cons_of_ne_nil hback,
          List.intercalate_singleton]
      | cons next front =>
        rw [List.cons_append, List.cons_append, List.intercalate_cons_cons, ← List.cons_append,
          ih (List.cons_ne_nil _ _), List.intercalate_cons_cons]
        simp only [List.append_assoc]
  rw [ofComponents, hjoin, String.ofList_append, String.ofList_append]
  rfl

/-- The path of the components of a text. -/
theorem ofComponents_toList (path : String) : ofComponents (components path.toList) = path := by
  rw [ofComponents_components, String.ofList_toList]

/-- Every path has a component. -/
theorem components_ne_nil (path : List Char) : components path ≠ [] := Text.split_ne_nil '/' path

/-- Every path has a last component. -/
theorem exists_components_eq (path : List Char) :
    ∃ front last, components path = front ++ [last] :=
  (List.eq_nil_or_concat' (components path)).resolve_left (components_ne_nil path)

/-- A directory and what is below it, by their components. -/
theorem components_below (directory rest : String) :
    components (directory ++ "/" ++ rest).toList =
      components directory.toList ++ components rest.toList := by
  rw [String.toList_append, String.toList_append, List.append_assoc]
  exact Text.split_append_mark directory.toList rest.toList

end Path

namespace Snapshot

/-- A component that is a name: it is entered, and it is not too long. -/
structure IsName (part : List Char) : Prop where
  stays : Path.stays part = false
  goesUp : Path.goesUp part = false
  isTooLong : isTooLong part = false

/-- What is no detour is put on. -/
theorem enter_eq {here : List (List Char)} {part : List Char} (hstays : Path.stays part = false)
    (hgoesUp : Path.goesUp part = false) : Path.enter false here part = part :: here := by
  simp [Path.enter, hstays, hgoesUp]

/-- Names are put on one after another. -/
theorem foldl_enter {parts : List (List Char)} (h : ∀ part ∈ parts, IsName part)
    (here : List (List Char)) :
    parts.foldl (Path.enter false) here = parts.reverse ++ here := by
  induction parts generalizing here with
  | nil => rfl
  | cons part parts ih =>
    obtain ⟨hpart, hparts⟩ := List.forall_mem_cons.1 h
    rw [List.foldl_cons, enter_eq hpart.stays hpart.goesUp, ih hparts, List.reverse_cons,
      List.append_assoc, List.singleton_append]

/-! ## Following components -/

variable {snapshot : Snapshot} {here front back parts : List (List Char)} {part : List Char}
  {path contents : String}

/-- **A path is followed in two parts.** What follows is followed from the directory
that the components before it lead to; if they lead to something else, there is
nothing below it. -/
theorem follow_append (hback : back ≠ []) :
    snapshot.follow here (front ++ back) =
      match snapshot.follow here front with
      | .directory => snapshot.follow (front.foldl (Path.enter false) here) back
      | .text _ => .underFile
      | other => other := by
  induction front generalizing here with
  | nil => rfl
  | cons part front ih =>
    rw [List.cons_append, follow, follow, List.foldl_cons]
    by_cases hdetour : (Path.stays part || Path.goesUp part) = true
    · rw [if_pos hdetour, if_pos hdetour, ih]
    · rw [if_neg hdetour, if_neg hdetour]
      obtain ⟨hstays, hgoesUp⟩ := Bool.or_eq_false_iff.1 (Bool.not_eq_true _ ▸ hdetour)
      have hmore : (front ++ back).isEmpty = false := by simp [hback]
      rw [hmore, ih, enter_eq hstays hgoesUp]
      by_cases hlong : isTooLong part = true
      · rw [if_pos hlong, if_pos hlong]
      · rw [if_neg hlong, if_neg hlong]
        cases snapshot.get? (Path.ofComponents (part :: here).reverse) with
        | some contents => cases front <;> rfl
        | none => cases snapshot.hasDirectory (part :: here).reverse <;> rfl

/-- What a name leads to: the file of that name, else a directory if a file is
below it. -/
theorem follow_singleton (h : IsName part) :
    snapshot.follow here [part] =
      match snapshot.get? (Path.ofComponents (part :: here).reverse) with
      | some contents => .text contents
      | none =>
        if snapshot.hasDirectory (part :: here).reverse then .directory else .missing := by
  rw [follow, h.stays, h.goesUp, h.isTooLong]
  rfl

/-- Only a name leads to a text. -/
theorem isName_of_follow (h : snapshot.follow here [part] = .text contents) : IsName part := by
  rw [follow] at h
  split at h
  · cases h
  · next hdetour =>
    obtain ⟨hstays, hgoesUp⟩ := Bool.or_eq_false_iff.1 (Bool.not_eq_true _ ▸ hdetour)
    split at h
    · cases h
    · next hlong => exact ⟨hstays, hgoesUp, Bool.eq_false_iff.2 hlong⟩

/-- A name leads to a text just if it is the name of a file. -/
theorem follow_singleton_eq_text_iff (h : IsName part) :
    snapshot.follow here [part] = .text contents ↔
      snapshot.get? (Path.ofComponents (part :: here).reverse) = some contents := by
  rw [follow_singleton h]
  cases snapshot.get? (Path.ofComponents (part :: here).reverse) with
  | some other => simp
  | none => cases snapshot.hasDirectory (part :: here).reverse <;> simp

/-- **Components lead to a text** just if those before the last lead to a directory
and the last is the name of a file in it. -/
theorem follow_concat_eq_text_iff :
    snapshot.follow here (front ++ [part]) = .text contents ↔
      snapshot.follow here front = .directory ∧ IsName part ∧
        snapshot.get? (Path.ofComponents
          (part :: front.foldl (Path.enter false) here).reverse) = some contents := by
  rw [follow_append (List.cons_ne_nil _ _)]
  cases snapshot.follow here front with
  | directory =>
    rw [eq_self, true_and]
    constructor
    · intro h
      have hname : IsName part := isName_of_follow h
      exact ⟨hname, (follow_singleton_eq_text_iff hname).1 h⟩
    · rintro ⟨hname, hfile⟩
      exact (follow_singleton_eq_text_iff hname).2 hfile
  | _ => simp

/-- **Names lead to a directory** just if none of the paths to it is a file, and there
is a file below each. -/
theorem follow_eq_directory_iff (h : ∀ part ∈ parts, IsName part) :
    snapshot.follow [] parts = .directory ↔
      ∀ above, above ≠ [] → above <+: parts →
        snapshot.get? (Path.ofComponents above) = none ∧
          snapshot.hasDirectory above = true := by
  induction parts using List.reverseRecOn with
  | nil => exact iff_of_true rfl fun above hne habove => absurd (List.prefix_nil.1 habove) hne
  | append_singleton parts part ih =>
    obtain ⟨hparts, hpart⟩ := List.forall_mem_append.1 h
    have hlast : (parts ++ [part]) ≠ [] := by simp
    -- a path to it is itself, or a path to the directory before it
    have hpaths {P : List (List Char) → Prop} :
        (∀ above, above ≠ [] → above <+: parts ++ [part] → P above) ↔
          (∀ above, above ≠ [] → above <+: parts → P above) ∧ P (parts ++ [part]) := by
      refine ⟨fun hall => ⟨fun above hne habove => hall above hne (habove.trans (by simp)),
        hall _ hlast (List.prefix_refl _)⟩, fun hall above hne habove => ?_⟩
      rcases List.prefix_concat_iff.1 habove with rfl | habove
      · exact hall.2
      · exact hall.1 above hne habove
    rw [hpaths, ← ih hparts, follow_append (List.cons_ne_nil _ _)]
    cases snapshot.follow [] parts with
    | directory =>
      rw [eq_self, true_and, foldl_enter hparts, List.append_nil]
      show snapshot.follow _ [part] = _ ↔ _
      rw [follow_singleton (hpart part (List.mem_singleton_self part)), List.reverse_cons,
        List.reverse_reverse]
      cases snapshot.get? (Path.ofComponents (parts ++ [part]))
      · simp
      · simp
    | _ => simp

/-! ## Whole paths -/

/-- From the root components lead to no file of the snapshot. -/
theorem fromRoot_ne_text : fromRoot parts ≠ .text contents := by
  rw [fromRoot]
  split
  · exact fun h => by cases h
  · split <;> exact fun h => by cases h

/-- A path leads to a text from the directory of the snapshot. -/
theorem follow_of_status (h : snapshot.status path = .text contents) :
    snapshot.follow [] (Path.components path.toList) = .text contents := by
  rw [status] at h
  split at h
  · cases h
  · split at h
    · cases h
    · exact absurd h fromRoot_ne_text
    · exact h

/-- **A text that is found is that of a file**: the file whose name is the path
without detours. -/
theorem get?_of_status (h : snapshot.status path = .text contents) :
    snapshot.get? (Path.relative path) = some contents := by
  have hfollow := follow_of_status h
  rw [Path.relative, Path.normal]
  obtain ⟨front, part, hparts⟩ := Path.exists_components_eq path.toList
  rw [hparts] at hfollow ⊢
  obtain ⟨-, hname, hfile⟩ := follow_concat_eq_text_iff.1 hfollow
  rwa [List.foldl_append, List.foldl_cons, List.foldl_nil, enter_eq hname.stays hname.goesUp]

/-- **Whatever is read is a text that was put there**, under the name that the path
has without detours. -/
theorem exists_file_of_status {files : List (String × String)}
    (h : (ofFiles files).status path = .text contents) :
    ∃ file ∈ files, Path.relative file.1 = Path.relative path ∧ file.2 = contents := by
  have hfile := get?_of_status h
  rw [ofFiles, Table.get?_ofList] at hfile
  obtain ⟨before, after, hsplit, -⟩ := List.lookup_eq_some_iff.1 hfile
  have hmem : (Path.relative path, contents) ∈
      files.map fun file => (Path.relative file.1, file.2) := by
    rw [← List.mem_reverse, hsplit]
    exact List.mem_append_right _ List.mem_cons_self
  obtain ⟨file, hfile, heq⟩ := List.mem_map.1 hmem
  exact ⟨file, hfile, congrArg Prod.fst heq, congrArg Prod.snd heq⟩

/-! ## Paths without detours -/

/-- A path without detours: its components are names, and it is not too long. -/
structure IsDirect (path : String) : Prop where
  names : ∀ part ∈ Path.components path.toList, IsName part
  short : path.utf8ByteSize ≤ 4095

namespace IsDirect

/-- Without detours a path is the name of what it leads to. -/
theorem relative_eq (h : IsDirect path) : Path.relative path = path := by
  rw [Path.relative, Path.normal, foldl_enter h.names, List.append_nil, List.reverse_reverse,
    Path.ofComponents_toList]

/-- A path without detours is followed from the directory of the snapshot. -/
theorem status_eq (h : IsDirect path) :
    snapshot.status path = snapshot.follow [] (Path.components path.toList) := by
  have hempty (rest : List (List Char)) (hparts : Path.components path.toList = [] :: rest) :
      False := by
    have hname := h.names [] (by rw [hparts]; exact List.mem_cons_self)
    cases hname.stays
  rw [status, if_neg (Nat.not_lt.2 h.short)]
  split
  · next hnil => exact (hempty [] (by rw [hnil]; rfl)).elim
  · next rest hroot => exact (hempty (Path.components rest) (by rw [hroot]; rfl)).elim
  · rfl

end IsDirect

/-- There is a directory above every file. -/
theorem hasDirectory_of_get? {directory rest : List (List Char)} (hdirectory : directory ≠ [])
    (hrest : rest ≠ [])
    (h : snapshot.get? (Path.ofComponents (directory ++ rest)) = some contents) :
    snapshot.hasDirectory directory = true := by
  refine List.any_eq_true.2 ⟨_, Table.mem_keys_iff.2 ⟨contents, h⟩, ?_⟩
  rw [List.isPrefixOf_iff_prefix, Path.ofComponents_append hdirectory hrest]
  generalize Path.ofComponents directory ++ "/" = above
  rw [String.toList_append]
  exact List.prefix_append _ _

/-- **A path without detours leads to a text** just if it is the name of a file and
nothing above it is a file. -/
theorem status_eq_text_iff (h : IsDirect path) :
    snapshot.status path = .text contents ↔
      snapshot.get? path = some contents ∧
        ∀ directory rest, path = directory ++ "/" ++ rest → snapshot.get? directory = none := by
  obtain ⟨front, part, hparts⟩ := Path.exists_components_eq path.toList
  have hnames := h.names
  have hpath : Path.ofComponents (front ++ [part]) = path := by
    rw [← hparts, Path.ofComponents_toList]
  rw [hparts, List.forall_mem_append] at hnames
  rw [h.status_eq, hparts, follow_concat_eq_text_iff, follow_eq_directory_iff hnames.1,
    and_iff_right (hnames.2 part (List.mem_singleton_self part)), foldl_enter hnames.1,
    List.append_nil, List.reverse_cons, List.reverse_reverse, hpath]
  constructor
  · rintro ⟨hdirectories, hfile⟩
    refine ⟨hfile, fun directory rest hbelow => ?_⟩
    rw [hbelow, Path.components_below] at hparts
    have habove : Path.components directory.toList <+: front := by
      refine (List.prefix_concat_iff.1 ⟨_, hparts⟩).resolve_left fun hall => ?_
      rw [hall] at hparts
      exact Path.components_ne_nil _ (List.append_right_eq_self.1 hparts)
    have hnone := (hdirectories _ (Path.components_ne_nil _) habove).1
    rwa [Path.ofComponents_toList] at hnone
  · rintro ⟨hfile, habove⟩
    refine ⟨fun above hne hprefix => ?_, hfile⟩
    obtain ⟨more, rfl⟩ := hprefix
    rw [List.append_assoc] at hpath
    have hrest : more ++ [part] ≠ [] := by simp
    refine ⟨habove _ _ (by rw [← hpath, Path.ofComponents_append hne hrest]), ?_⟩
    exact hasDirectory_of_get? hne hrest (by rw [hpath]; exact hfile)

end Snapshot

/-! ## Scripts -/

/-- Files that lie apart: their names are paths without detours, no two are the same,
and none lies below another. -/
structure Snapshot.Apart (files : List (String × String)) : Prop where
  direct : ∀ file ∈ files, IsDirect file.1
  nodup : (files.map Prod.fst).Nodup
  above : ∀ file ∈ files, ∀ other ∈ files, ∀ rest, file.1 ≠ other.1 ++ "/" ++ rest

/-- **Files that lie apart are all there**, each with its text. -/
theorem Snapshot.Apart.status_eq {files : List (String × String)} (h : Apart files)
    {file : String × String} (hfile : file ∈ files) :
    (ofFiles files).status file.1 = .text file.2 := by
  have hnames : (files.map fun file => (Path.relative file.1, file.2)) = files := by
    conv_rhs => rw [← List.map_id files]
    exact List.map_congr_left fun file hfile => Prod.ext (h.direct file hfile).relative_eq rfl
  have hentries : (ofFiles files).entries = files := by
    rw [ofFiles, hnames, Table.entries_ofList h.nodup]
  refine (status_eq_text_iff (h.direct file hfile)).2
    ⟨Table.get?_of_mem (by rw [hentries]; exact hfile), fun directory rest hbelow => ?_⟩
  -- a file above would be another one of the files
  by_contra hsome
  obtain ⟨contents, hother⟩ := Option.ne_none_iff_exists'.1 hsome
  have hmem := Table.mem_of_get? hother
  rw [hentries] at hmem
  exact h.above file hfile _ hmem rest hbelow

/-- **A script is read as it was put into a snapshot**, and whatever the program reads
from a snapshot was put there. -/
theorem Program.readScript_ofFiles (host : Host) {files : List (String × String)}
    (hhost : host.files = (Snapshot.ofFiles files).status) :
    (Snapshot.Apart files → ∀ file ∈ files, file.1 ≠ "-" →
      readScript host file.1 = .ok file.2) ∧
    ∀ path script, path ≠ "-" → readScript host path = .ok script →
      ∃ file ∈ files, Path.relative file.1 = Path.relative path ∧ file.2 = script := by
  refine ⟨fun hapart file hfile hname => ?_, fun path script hpath hread => ?_⟩
  · rw [readScript, if_neg hname, hhost, hapart.status_eq hfile]
  · rw [readScript, if_neg hpath, hhost] at hread
    split at hread
    case h_1 contents hstatus =>
      cases hread
      exact Snapshot.exists_file_of_status hstatus
    all_goals cases hread

/-- Detours lead to a file, too. -/
example : (Snapshot.ofFiles [("a/b", "(exit)"), ("c", "(check-sat)")]).status "./a/../c" =
    .text "(check-sat)" := by decide +kernel

end SatScript
