import Mathlib.Data.List.Basic
import Mathlib.Data.List.Induction
import SatScript.Program.Arguments
/-!
# SatScript — arguments in another order

The words of the arguments fall into groups: an option with its value, or a
word for itself. What the arguments say is gathered from the groups kind by
kind (`parse_eq_gathered`): whether a flag is there, the last path, the last
value that is a number, and the files and the unknown options as they come. So
groups of different kinds can change places, and flags with any others
(`parse_reordered`). The value of an option is never taken for anything else
(`parse_config`, `parse_timeout`).
-/

namespace SatScript

namespace Argument

/-- What kind of argument it is. -/
inductive Kind where
  | flag
  | config
  | timeout
  | unknown
  | file
deriving DecidableEq

/-- The kind of an argument. -/
def kind : Argument → Kind
  | .help => .flag
  | .version => .flag
  | .quiet => .flag
  | .strict => .flag
  | .models => .flag
  | .config _ => .config
  | .timeout _ => .timeout
  | .unknown _ => .unknown
  | .file _ => .file

/-! ## Groups of words -/

/-- Words that belong together: an option and the value behind it, whatever the
value looks like, or a word for itself. -/
inductive Group where
  | config (path : String)
  | timeout (value : String)
  | single (word : String) (alone : word ≠ "--config" ∧ word ≠ "--timeout")
deriving DecidableEq

namespace Group

/-- The words of a group. -/
def words : Group → List String
  | .config path => ["--config", path]
  | .timeout value => ["--timeout", value]
  | .single word _ => [word]

/-- The argument that a group is. -/
def argument : Group → Argument
  | .config path => .config (some path)
  | .timeout value => .timeout (some value)
  | .single word _ => ofWord word

end Group

/-- A word that is no option with a value is a group, whatever follows. -/
theorem group_word {word : String} (alone : word ≠ "--config" ∧ word ≠ "--timeout")
    (rest : List String) : group (word :: rest) = ofWord word :: group rest := by
  cases rest with
  | nil => simp [group, alone.1, alone.2]
  | cons next rest => simp [group, alone.1, alone.2]

/-- The words of a group are grouped together, whatever follows. -/
theorem group_words (first : Group) (rest : List String) :
    group (first.words ++ rest) = first.argument :: group rest := by
  cases first with
  | config path => rfl
  | timeout value => rfl
  | single word alone => exact group_word alone rest

/-- **The words of groups are grouped as they are.** -/
theorem group_flatMap (groups : List Group) (rest : List String) :
    group (groups.flatMap Group.words ++ rest) = groups.map Group.argument ++ group rest := by
  induction groups with
  | nil => rfl
  | cons first groups ih =>
    rw [List.flatMap_cons, List.append_assoc, group_words, ih, List.map_cons, List.cons_append]

/-! ## What an argument says -/

/-- The path that an argument gives; none inside if the option ends the words. -/
def path? : Argument → Option (Option String)
  | .config path => some path
  | _ => none

/-- The time limit that an argument gives: none if its value is no number. -/
def limit? : Argument → Option Number
  | .timeout value => (value.bind fun v => Text.leadingInteger? v.toList).map Number.ofInt
  | _ => none

/-- The unknown option that an argument is. -/
def unknown? : Argument → Option String
  | .unknown option => some option
  | _ => none

/-- The file that an argument names. -/
def file? : Argument → Option String
  | .file name => some name
  | _ => none

end Argument

namespace Arguments

open Argument

/-! ## Kind by kind -/

/-- What arguments say, gathered kind by kind. -/
def gathered (arguments : List Argument) : Arguments where
  help := arguments.contains .help
  version := arguments.contains .version
  quiet := arguments.contains .quiet
  strict := arguments.contains .strict
  models := arguments.contains .models
  configFile := (arguments.filterMap path?).getLast?.join
  timeout := (arguments.filterMap limit?).getLast?
  files := arguments.filterMap file?
  unknown := arguments.filterMap unknown?

/-- A further argument is taken by what was gathered before. -/
theorem gathered_concat (arguments : List Argument) (last : Argument) :
    gathered (arguments ++ [last]) = (gathered arguments).take last := by
  cases last with
  | timeout value =>
    rw [take]
    cases h : value.bind fun v => Text.leadingInteger? v.toList <;>
      simp [gathered, path?, limit?, file?, unknown?, h]
  | _ => simp [gathered, take, path?, limit?, file?, unknown?]

/-- **What the words say is gathered kind by kind.** -/
theorem parse_eq_gathered (words : List String) : parse words = gathered (group words) := by
  have hfold (arguments : List Argument) : arguments.foldl take {} = gathered arguments := by
    induction arguments using List.reverseRecOn with
    | nil => rfl
    | append_singleton arguments last ih =>
      rw [List.foldl_append, ih, gathered_concat, List.foldl_cons, List.foldl_nil]
  exact hfold (group words)

/-! ## In another order -/

/-- The same groups in another order: those of one kind come as they came, but
for flags, which come as they like. -/
structure Reordered (groups others : List Group) : Prop where
  perm : groups.Perm others
  order : ∀ kind, kind ≠ .flag →
    groups.filter (·.argument.kind = kind) = others.filter (·.argument.kind = kind)

variable {groups others : List Group} {α : Type} {gives : Argument → Option α} {kind : Kind}

/-- Only arguments of one kind give anything. -/
def Gives (kind : Kind) (gives : Argument → Option α) : Prop :=
  ∀ argument, gives argument = if argument.kind = kind then gives argument else none

/-- What only arguments of one kind give is given by these. -/
theorem filterMap_filter_kind (hkind : Gives kind gives) (groups : List Group) :
    (groups.map Group.argument).filterMap gives =
      ((groups.filter (·.argument.kind = kind)).map Group.argument).filterMap gives := by
  rw [List.filterMap_map, List.filterMap_map, List.filterMap_filter]
  refine List.filterMap_congr fun first _ => ?_
  simpa only [Function.comp, decide_eq_true_eq] using hkind first.argument

/-- What only arguments of one kind give, flags apart, does not depend on the
order. -/
theorem Reordered.filterMap_eq (h : Reordered groups others) (hflag : kind ≠ .flag)
    (hkind : Gives kind gives) :
    (groups.map Group.argument).filterMap gives = (others.map Group.argument).filterMap gives := by
  rw [filterMap_filter_kind hkind groups, filterMap_filter_kind hkind others, h.order kind hflag]

/-- **What is gathered does not depend on the order.** -/
theorem Reordered.gathered_eq (h : Reordered groups others) :
    gathered (groups.map Group.argument) = gathered (others.map Group.argument) := by
  have hflag (flag : Argument) :
      (groups.map Group.argument).contains flag = (others.map Group.argument).contains flag :=
    (h.perm.map Group.argument).contains_eq
  have hpath : Gives .config path? := fun argument => by cases argument <;> rfl
  have hlimit : Gives .timeout limit? := fun argument => by cases argument <;> rfl
  have hunknown : Gives .unknown unknown? := fun argument => by cases argument <;> rfl
  have hfile : Gives .file file? := fun argument => by cases argument <;> rfl
  simp only [gathered, hflag, h.filterMap_eq (by decide) hpath, h.filterMap_eq (by decide) hlimit,
    h.filterMap_eq (by decide) hunknown, h.filterMap_eq (by decide) hfile]

/-! ## The value of an option -/

/-- An option with a value says nothing but what its value is. -/
theorem gathered_insert {option : Argument} (before behind : List Argument)
    (hoption : option.kind = .config ∨ option.kind = .timeout) :
    gathered (before ++ option :: behind) =
      { gathered (before ++ behind) with
        configFile := ((before ++ option :: behind).filterMap path?).getLast?.join
        timeout := ((before ++ option :: behind).filterMap limit?).getLast? } := by
  cases option with
  | config path => simp [gathered, List.filterMap_cons, unknown?, file?]
  | timeout value => simp [gathered, List.filterMap_cons, unknown?, file?]
  | _ => simp [kind] at hoption

/-- **The value of `--config` is a path, whatever it looks like**, and counts if no
other comes behind it. Nothing else is made of it. -/
theorem parse_config (groups : List Group) (path : String) (rest : List String) :
    let others := parse (groups.flatMap Group.words ++ rest)
    parse (groups.flatMap Group.words ++ "--config" :: path :: rest) =
      { others with
        configFile :=
          if (group rest).filterMap path? = [] then some path else others.configFile } := by
  have hgroup : group ("--config" :: path :: rest) = .config (some path) :: group rest :=
    group_words (.config path) rest
  simp only [parse_eq_gathered, group_flatMap, hgroup]
  rw [gathered_insert _ _ (.inl rfl)]
  simp only [gathered, List.filterMap_append, List.getLast?_append, List.filterMap_cons, path?,
    limit?]
  cases (group rest).filterMap path? with
  | nil => rfl
  | cons first paths => simp

/-- **The value of `--timeout` is a number or nothing, whatever it looks like**, and
counts if it is one and no other comes behind it. Nothing else is made of it. -/
theorem parse_timeout (groups : List Group) (value : String) (rest : List String) :
    let others := parse (groups.flatMap Group.words ++ rest)
    parse (groups.flatMap Group.words ++ "--timeout" :: value :: rest) =
      { others with
        timeout :=
          if (group rest).filterMap limit? = [] then
            (limit? (.timeout (some value))).or others.timeout
          else others.timeout } := by
  have hgroup : group ("--timeout" :: value :: rest) = .timeout (some value) :: group rest :=
    group_words (.timeout value) rest
  simp only [parse_eq_gathered, group_flatMap, hgroup]
  rw [gathered_insert _ _ (.inr rfl)]
  simp only [gathered, List.filterMap_append, List.getLast?_append, List.filterMap_cons, path?]
  cases limit? (.timeout (some value)) with
  | none => cases (group rest).filterMap limit? <;> simp
  | some limit => cases (group rest).filterMap limit? <;> simp

/-! ## The arguments -/

/-- **Arguments can be given in another order.** Groups of words of which those of one
kind come in the same order, flags in any, say the same and ask for the same job,
or for none with the same fault. What stands behind `--config` or `--timeout` is
a path or a time limit, which counts if it is the last one, and takes no part in
anything else: for the rest the arguments say what they say without the two words. -/
theorem parse_reordered (h : Reordered groups others) :
    (parse (groups.flatMap Group.words) = parse (others.flatMap Group.words) ∧
      (parse (groups.flatMap Group.words)).job = (parse (others.flatMap Group.words)).job) ∧
    ∀ (before : List Group) (value : String) (rest : List String),
      let without := parse (before.flatMap Group.words ++ rest)
      parse (before.flatMap Group.words ++ "--config" :: value :: rest) =
          { without with
            configFile :=
              if (group rest).filterMap path? = [] then some value else without.configFile } ∧
        parse (before.flatMap Group.words ++ "--timeout" :: value :: rest) =
          { without with
            timeout :=
              if (group rest).filterMap limit? = [] then
                (limit? (.timeout (some value))).or without.timeout
              else without.timeout } := by
  have hgroup (groups : List Group) :
      group (groups.flatMap Group.words) = groups.map Group.argument := by
    simpa [group] using group_flatMap groups []
  have hparse : parse (groups.flatMap Group.words) = parse (others.flatMap Group.words) := by
    rw [parse_eq_gathered, parse_eq_gathered, hgroup, hgroup, h.gathered_eq]
  exact ⟨⟨hparse, congrArg job hparse⟩, fun before value rest =>
    ⟨parse_config before value rest, parse_timeout before value rest⟩⟩

/-- A path that looks like a flag, and a time limit that is no number behind one that
begins with one. -/
theorem parse_reordered_quiet :
    let groups : List Group :=
      [.config "--quiet", .timeout "5s", .single "a.smt2" (by decide), .timeout "-q",
        .single "--strict" (by decide)]
    let others : List Group :=
      [.single "--strict" (by decide), .timeout "5s", .single "a.smt2" (by decide),
        .config "--quiet", .timeout "-q"]
    let words := ["--strict", "--timeout", "5s", "a.smt2", "--config", "--quiet", "--timeout", "-q"]
    let job : Job :=
      { file := "a.smt2"
        configFile := some "--quiet"
        overrides := { strictLists := some true, timeout := some (.finite 5) } }
    Reordered groups others ∧ others.flatMap Group.words = words ∧
      parse (groups.flatMap Group.words) = parse words ∧ (parse words).job = .ok job ∧
      (parse (groups.flatMap Group.words)).job = .ok job := by
  intro groups others words job
  have hreordered : Reordered groups others :=
    ⟨by decide, fun kind _ => by cases kind <;> decide⟩
  obtain ⟨⟨hparse, hjob⟩, -⟩ := parse_reordered hreordered
  have hwords : others.flatMap Group.words = words := by decide
  have hgiven : (parse words).job = .ok job := rfl
  rw [hwords] at hparse hjob
  exact ⟨hreordered, hwords, hparse, hgiven, hjob.trans hgiven⟩

end Arguments

end SatScript
