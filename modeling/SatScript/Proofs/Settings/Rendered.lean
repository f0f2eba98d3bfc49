import SatScript.Proofs.Settings.Precedence
import SatScript.Proofs.Settings.Written
/-!
# SatScript — settings as documents

Settings are rendered as a document: each that is given is entered in its section
under one of its names (`Renders`). Whatever else the document holds, it gives the
settings that it renders, as sections and as JSON, and so does every text that it
is written as (`read_rendered`).
-/

namespace SatScript

/-! ## Entries of sections -/

namespace Table

variable {α : Type}

/-- The value of an entry of a section. -/
def within? (document : Table (Table α)) (part name : String) : Option α :=
  (document.get? part).bind (·.get? name)

/-- Enter a value in a section, which is opened if it is not there. -/
def enter (document : Table (Table α)) (part name : String) (value : α) : Table (Table α) :=
  document.set part (((document.get? part).getD empty).set name value)

/-- **Entering a value changes the look-up of that entry and of no other.** -/
theorem within?_enter (document : Table (Table α)) (part name other key : String) (value : α) :
    (document.enter part name value).within? other key =
      if other = part ∧ key = name then some value else document.within? other key := by
  rw [within?, enter, get?_set]
  by_cases hpart : other = part
  · subst hpart
    rw [if_pos rfl, Option.bind_some, get?_set, within?]
    by_cases hname : key = name
    · rw [if_pos hname, if_pos ⟨rfl, hname⟩]
    · rw [if_neg hname, if_neg fun h => hname h.2]
      cases document.get? other <;> rfl
  · rw [if_neg hpart, if_neg fun h => hpart h.1, within?]

end Table

namespace Sections

/-- The value of an entry of a document is read from its sections. -/
theorem value?_map_section (document : Table (Table Scalar)) :
    value? (document.map Entry.section) = document.within? := by
  funext part name
  rw [value?, Table.get?_map, Table.within?]
  cases document.get? part <;> rfl

/-- A document can still be written down after a plain value has been entered. -/
theorem IsWritable.enter {document : Table (Table Scalar)} {part name : String}
    {value : Scalar} {chars : List Char} (h : IsWritable document) (hpart : IsName part)
    (hname : IsName name) (hvalue : Written value chars) :
    IsWritable (document.enter part name value) := by
  intro other entries hentries
  rw [Table.enter, Table.get?_set] at hentries
  split at hentries
  · next heq =>
    rw [Option.some.injEq] at hentries
    subst heq hentries
    refine ⟨hpart, fun key scalar hscalar => ?_⟩
    rw [Table.get?_set] at hscalar
    split at hscalar
    · next heq =>
      rw [Option.some.injEq] at hscalar
      subst heq hscalar
      exact ⟨hname, chars, hvalue⟩
    · cases hopen : document.get? other with
      | none =>
        rw [hopen] at hscalar
        cases hscalar
      | some entries =>
        rw [hopen] at hscalar
        exact (h _ _ hopen).2 _ _ hscalar
  · exact h _ _ hentries

end Sections

/-- The JSON value that a plain value is. -/
def Json.ofScalar : Scalar → Json
  | .flag value => .bool value
  | .number value => .number value
  | .text value => .string value

/-- The JSON value that a document of sections is: an object of objects. -/
def Json.ofDocument (document : Table (Table Scalar)) : Json :=
  .object (document.map fun entries => .object (entries.map ofScalar).entries).entries

/-- The value of an entry of a document is read from its JSON value. -/
theorem Settings.ofJson_ofDocument (document : Table (Table Scalar)) :
    ofJson (Json.ofDocument document) = document.within? := by
  funext part name
  have hpart : (Json.ofDocument document).member? part =
      (document.get? part).map fun entries => .object (entries.map Json.ofScalar).entries :=
    Table.get?_map _ document part
  rw [ofJson, hpart, Table.within?]
  cases document.get? part with
  | none => rfl
  | some entries =>
    have hname : Json.member? (.object (entries.map Json.ofScalar).entries) name =
        (entries.get? name).map Json.ofScalar := Table.get?_map _ entries name
    rw [Option.map_some, Option.bind_some, hname, Option.bind_some]
    rcases entries.get? name with _ | (_ | _ | _) <;> rfl

/-! ## Settings in documents -/

/-- A number that is an integer. -/
def Number.IsInteger (number : Number) : Prop :=
  ∃ n : Int, ofInt n = number ∧ number = .finite n

/-- Up to `2 ^ 53` every integer is a number. -/
theorem Number.isInteger_finite {n : Int} (h : n.natAbs ≤ significandBound) :
    IsInteger (.finite n) := ⟨n, ofInt_of_natAbs_le h, rfl⟩

namespace SettingVariable

/-- The plain value that a value of the setting is. -/
def toScalar : (setting : SettingVariable) → setting.Value → Scalar
  | .strictLists => Scalar.flag
  | .fractionalNumerals => Scalar.flag
  | .timeout => Scalar.number
  | .produceModels => Scalar.flag
  | .tracing => Scalar.flag

theorem mem_all (setting : SettingVariable) : setting ∈ all := by
  cases setting <;> decide

/-- No two settings of one section share a name. -/
theorem eq_of_mem_names {setting other : SettingVariable} {name : String}
    (hpart : other.part = setting.part) (hother : name ∈ other.names)
    (hsetting : name ∈ setting.names) : other = setting := by
  have hall : ∀ setting ∈ all, ∀ other ∈ all, other.part = setting.part →
      (∃ name ∈ setting.names, name ∈ other.names) → other = setting := by decide
  exact hall setting (mem_all setting) other (mem_all other) hpart ⟨name, hsetting, hother⟩

/-- The last of the names of a setting. -/
def lastName (setting : SettingVariable) : String :=
  setting.names.getLast (by cases setting <;> exact List.cons_ne_nil _ _)

theorem lastName_mem_names (setting : SettingVariable) : setting.lastName ∈ setting.names :=
  List.getLast_mem _

/-- Sections of settings have plain names. -/
theorem isName_part (setting : SettingVariable) : Sections.IsName setting.part := by
  cases setting <;> exact .of_all (by decide) (by decide) rfl

/-- Settings have plain names. -/
theorem isName_of_mem_names {setting : SettingVariable} {name : String}
    (h : name ∈ setting.names) : Sections.IsName name := by
  have hall : ∀ setting ∈ all, ∀ name ∈ setting.names, name.toList ≠ [] ∧
    name ≠ Sections.reservedKey ∧
    name.toList.all (fun c => !Text.isSpace c && c != ':' && c != '#') = true := by decide
  obtain ⟨hne, hfree, hchars⟩ := hall setting setting.mem_all name h
  exact .of_all hne hfree hchars

end SettingVariable

namespace Overrides

/-- Sources that give the same values are the same. -/
theorem ext_value? {overrides others : Overrides}
    (h : ∀ setting, overrides.value? setting = others.value? setting) : overrides = others := by
  cases overrides
  cases others
  congr
  · exact h .strictLists
  · exact h .fractionalNumerals
  · exact h .timeout
  · exact h .produceModels
  · exact h .tracing

/-- The plain value that a source gives to a setting. -/
def scalar? (overrides : Overrides) (setting : SettingVariable) : Option Scalar :=
  (overrides.value? setting).map setting.toScalar

/-- A time limit that is given is an integer. -/
def IsWhole (overrides : Overrides) : Prop :=
  ∀ limit, overrides.timeout = some limit → limit.IsInteger

variable {overrides : Overrides} {document : Table (Table Scalar)}

/-- What a source gives to a setting is a plain value of the right kind. -/
theorem IsWhole.bind_ofScalar (h : overrides.IsWhole) (setting : SettingVariable) :
    (overrides.scalar? setting).bind setting.ofScalar = overrides.value? setting := by
  rw [scalar?, Option.bind_map]
  cases hvalue : overrides.value? setting with
  | none => rfl
  | some value =>
    rw [Option.bind_some]
    cases setting with
    | timeout =>
      obtain ⟨n, -, rfl⟩ := h value hvalue
      rfl
    | _ => rfl

/-- A document renders settings if it holds each that is given under one of the names
of the setting and nothing under the others. -/
def Renders (overrides : Overrides) (document : Table (Table Scalar)) : Prop :=
  ∀ setting : SettingVariable, ∃ name ∈ setting.names, ∀ other ∈ setting.names,
    document.within? setting.part other = if other = name then overrides.scalar? setting else none

/-- **A document gives the settings that it renders.** -/
theorem Renders.ofLookup_eq (h : overrides.Renders document) (hwhole : overrides.IsWhole) :
    ofLookup document.within? = overrides := by
  refine ext_value? fun setting => ?_
  obtain ⟨name, hname, hentry⟩ := h setting
  rw [Document.value?_ofLookup, ← hwhole.bind_ofScalar setting]
  -- of the names only the one that is used can give a value
  cases hvalue : (overrides.scalar? setting).bind setting.ofScalar with
  | none =>
    refine List.findSome?_eq_none_iff.2 fun other hother => ?_
    rw [hentry other hother]
    split
    · exact hvalue
    · rfl
  | some value =>
    obtain ⟨before, behind, hnames, hbefore⟩ := List.eq_append_cons_of_mem hname
    refine List.findSome?_eq_some_iff.2 ⟨before, name, behind, hnames, ?_, fun other hother => ?_⟩
    · rw [hentry name hname, if_pos rfl, hvalue]
    · rw [hentry other (by rw [hnames]; exact List.mem_append_left _ hother),
        if_neg fun heq => hbefore (by rw [← heq]; exact hother)]
      rfl

/-! ## Rendering settings -/

variable {name : SettingVariable → String}

/-- Enter a setting under its name, if it is given. -/
def enter (overrides : Overrides) (name : SettingVariable → String)
    (document : Table (Table Scalar)) (setting : SettingVariable) : Table (Table Scalar) :=
  match overrides.scalar? setting with
  | none => document
  | some value => document.enter setting.part (name setting) value

/-- The settings that are given, each entered under the name that is chosen for it. -/
def rendered (overrides : Overrides) (name : SettingVariable → String) : Table (Table Scalar) :=
  SettingVariable.all.foldl (overrides.enter name) Table.empty

/-- Entering a setting changes its entry and no other setting's. -/
theorem within?_enter (hname : ∀ setting, name setting ∈ setting.names)
    (document : Table (Table Scalar)) (entered setting : SettingVariable) {other : String}
    (hother : other ∈ setting.names) :
    (overrides.enter name document entered).within? setting.part other =
      if entered = setting ∧ other = name setting then
        (overrides.scalar? setting).or (document.within? setting.part other)
      else document.within? setting.part other := by
  have hsame : setting.part = entered.part ∧ other = name entered ↔
      entered = setting ∧ other = name setting := by
    constructor
    · rintro ⟨hpart, rfl⟩
      obtain rfl := SettingVariable.eq_of_mem_names hpart.symm (hname entered) hother
      exact ⟨rfl, rfl⟩
    · rintro ⟨rfl, rfl⟩
      exact ⟨rfl, rfl⟩
  rw [enter]
  split
  · next hnone =>
    split
    · next h => rw [← h.1, hnone, Option.none_or]
    · rfl
  · next value hvalue =>
    rw [Table.within?_enter]
    simp only [hsame]
    split
    · next h => rw [← h.1, hvalue, Option.some_or]
    · rfl

/-- Entering settings one after another puts in those that are given. -/
theorem within?_foldl_enter (hname : ∀ setting, name setting ∈ setting.names)
    (settings : List SettingVariable) (document : Table (Table Scalar))
    (setting : SettingVariable) {other : String} (hother : other ∈ setting.names) :
    (settings.foldl (overrides.enter name) document).within? setting.part other =
      if setting ∈ settings ∧ other = name setting then
        (overrides.scalar? setting).or (document.within? setting.part other)
      else document.within? setting.part other := by
  induction settings generalizing document with
  | nil => rfl
  | cons entered settings ih =>
    rw [List.foldl_cons, ih, within?_enter hname document entered setting hother]
    by_cases hhead : entered = setting
    · subst hhead
      by_cases hname : other = name entered
      · cases overrides.scalar? entered <;> simp [hname]
      · simp [hname]
    · simp [hhead, Ne.symm hhead]

/-- **Settings are rendered as a document**, whichever of their names are chosen. -/
theorem renders_rendered (overrides : Overrides)
    (hname : ∀ setting, name setting ∈ setting.names) :
    overrides.Renders (overrides.rendered name) := fun setting => by
  refine ⟨name setting, hname setting, fun other hother => ?_⟩
  rw [rendered, within?_foldl_enter hname _ _ _ hother]
  simp [SettingVariable.mem_all setting, Table.within?]

/-- The plain value that is given to a setting can be written down. -/
theorem IsWhole.exists_written (h : overrides.IsWhole) {setting : SettingVariable}
    {value : Scalar} (hvalue : overrides.scalar? setting = some value) :
    ∃ chars, Sections.Written value chars := by
  obtain ⟨given, hgiven, rfl⟩ := Option.map_eq_some_iff.1 hvalue
  cases setting with
  | timeout =>
    obtain ⟨n, rfl, -⟩ := h given hgiven
    exact ⟨_, .integer n⟩
  | _ => exact ⟨_, .flag given⟩

/-- **Rendered settings can be written down.** -/
theorem IsWhole.isWritable_rendered (h : overrides.IsWhole)
    (hname : ∀ setting, name setting ∈ setting.names) :
    Sections.IsWritable (overrides.rendered name) := by
  refine List.foldlRecOn _ _ (fun _ _ hnone => by cases hnone)
    fun document hdocument setting _ => ?_
  rw [enter]
  split
  · exact hdocument
  · next value hvalue =>
    obtain ⟨chars, hchars⟩ := h.exists_written hvalue
    exact hdocument.enter (setting.isName_part)
      (SettingVariable.isName_of_mem_names (hname setting)) hchars

end Overrides

namespace Sections

/-- **Settings are read from what they are written as.** Every document with plain
names and values can be written down, and every text that it is written as is read
as the document. Settings of which the time limit is an integer are given by every
document that renders them, as sections, as JSON and as it is read from a text;
and under whichever of their names they are entered, their document renders them
and can be written down. -/
theorem read_rendered :
    (∀ document : Table (Table Scalar),
      (IsWritable document → ∃ text, WrittenAs document text) ∧
      ∀ text, WrittenAs document text → read text = document.map Entry.section) ∧
    ∀ overrides : Overrides, overrides.IsWhole →
      (∀ document, overrides.Renders document →
        Overrides.ofSections (document.map Entry.section) = overrides ∧
        Overrides.ofJson (Json.ofDocument document) = overrides ∧
        ∀ text, WrittenAs document text → Overrides.ofSections (read text) = overrides) ∧
      ∀ name : SettingVariable → String, (∀ setting, name setting ∈ setting.names) →
        overrides.Renders (overrides.rendered name) ∧
        ∃ text, WrittenAs (overrides.rendered name) text := by
  refine ⟨fun document => ⟨IsWritable.exists_writtenAs, fun text h => h.read_eq⟩,
    fun overrides hwhole => ⟨fun document hrenders => ?_, fun name hname =>
      ⟨overrides.renders_rendered hname, (hwhole.isWritable_rendered hname).exists_writtenAs⟩⟩⟩
  have hsections : Overrides.ofSections (document.map Entry.section) = overrides := by
    rw [Overrides.ofSections, value?_map_section, hrenders.ofLookup_eq hwhole]
  refine ⟨hsections, ?_, fun text htext => by rw [htext.read_eq, hsections]⟩
  show Overrides.ofLookup (Settings.ofJson (Json.ofDocument document)) = overrides
  rw [Settings.ofJson_ofDocument, hrenders.ofLookup_eq hwhole]

/-- A time limit and flags, entered under the last of their names and written with
comments, an empty line and different indentations. -/
theorem read_rendered_solver :
    let overrides : Overrides :=
      { timeout := some (.finite 500), produceModels := some true, tracing := some false }
    let text := ("# settings\nsolver: # of the solver\n  timeout_ms: 500   # per check\n" ++
      " produce_models: true\n\ntrace:\n\tenabled: false").toList
    overrides.IsWhole ∧ overrides.Renders (overrides.rendered SettingVariable.lastName) ∧
      WrittenAs (overrides.rendered SettingVariable.lastName) text ∧
      read text = (overrides.rendered SettingVariable.lastName).map Entry.section ∧
      Overrides.ofSections (read text) = overrides := by
  intro overrides text
  have hwhole : overrides.IsWhole := fun limit hlimit => by
    cases hlimit
    exact Number.isInteger_finite (n := 500) (by decide)
  have hrenders := ((read_rendered.2 overrides hwhole).2 _ SettingVariable.lastName_mem_names).1
  have hname (setting : SettingVariable) : IsName setting.lastName :=
    SettingVariable.isName_of_mem_names setting.lastName_mem_names
  have hspaces (cs : List Char) (h : cs.all Text.isSpace = true) : Text.IsSpaces cs :=
    List.all_eq_true.1 h
  have htail (spaces rest : List Char) (hne : spaces ≠ []) (hs : spaces.all Text.isSpace = true)
      (hrest : rest.all staysInComment = true) : MayFollow (spaces ++ '#' :: rest) :=
    .inr ⟨spaces, rest, hne, hspaces spaces hs, List.all_eq_true.1 hrest, rfl⟩
  have hwrites : Writes (overrides.rendered SettingVariable.lastName).entries _ :=
    .idle ⟨[], "# settings".toList, hspaces [] rfl, .inr rfl, rfl⟩ <|
    .section (SettingVariable.isName_part .timeout)
      (htail [' '] " of the solver".toList (by decide) rfl rfl)
      (.entry (hspaces "  ".toList rfl) (by decide) (hname .timeout) (.integer 500)
        (htail "   ".toList " per check".toList (by decide) rfl rfl) <|
      .entry (hspaces " ".toList rfl) (by decide) (hname .produceModels) (.flag true)
        (.inl rfl) <|
      .idle ⟨[], [], hspaces [] rfl, .inl rfl, rfl⟩ .nil) <|
    .section (SettingVariable.isName_part .tracing) (.inl rfl)
      (.entry (hspaces "\t".toList rfl) (by decide) (hname .tracing) (.flag false) (.inl rfl)
        .nil)
      .nil
  have hwritten : WrittenAs (overrides.rendered SettingVariable.lastName) text :=
    ⟨_, hwrites, by decide, by decide⟩
  exact ⟨hwhole, hrenders, hwritten, (read_rendered.1 _).2 text hwritten,
    ((read_rendered.2 overrides hwhole).1 _ hrenders).2.2 text hwritten⟩

end Sections

end SatScript
