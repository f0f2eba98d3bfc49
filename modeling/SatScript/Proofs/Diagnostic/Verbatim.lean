import SatScript.Expr.Elaboration
import SatScript.Proofs.Diagnostic.Filling
/-!
# SatScript — messages that quote their parameters

A message should be the template of its code with the texts of the parameters in it, as
they are (`Code.verbatim`). It is if no text has a dollar sign with a meaning and none
holds the placeholder of a parameter that is filled in later (`make_verbatim`); where a
template has one placeholder, just if the text has no such dollar sign
(`make_verbatim_iff`). What the program reports are counts and texts of the script. A count
is written without dollar signs and braces, so it is quoted, and it does not matter what
stands in a message behind it (`make_wrongCount_iff`). `message_verbatim` puts this
together for all that the program reports.
-/

namespace SatScript

open Template (Plain Begins IsKey Inert placeholder fillOne expand)

/-- The parameters with their texts. -/
def Params.written (params : Params) : List (String × String) :=
  params.map fun p => (p.1, p.2.written)

namespace Code

/-- The template of a code, taken apart. -/
def parts : Code → Template.Parts
  | .malformed => ⟨"Malformed expression: ".toList, [("detail", [])]⟩
  | .unterminated => ⟨"Unterminated list starting at offset ".toList, [("offset", [])]⟩
  | .undefinedName => ⟨"Undefined variable: ".toList, [("name", [])]⟩
  | .wrongCount =>
    ⟨"Wrong number of elements in ".toList,
      [("form", ": expected ".toList), ("expected", ", got ".toList), ("actual", [])]⟩
  | .badNumeral => ⟨"Invalid numeral: ".toList, [("text", [])]⟩
  | .unknownCommand => ⟨"Unknown command: ".toList, [("command", [])]⟩
  | .usage => ⟨[], [("detail", [])]⟩
  | .rename => ⟨[], [("detail", [])]⟩
  | .backend => ⟨"Solver back end failed: ".toList, [("detail", [])]⟩
  | .setting => ⟨[], [("detail", [])]⟩

/-- The keys of the placeholders of a code. -/
def keys (code : Code) : List String := code.parts.keys

/-- The message of a code that quotes the parameters as they are. -/
def verbatim (code : Code) (params : Params) : String :=
  Template.atOnce code.template params.written

theorem template_eq (code : Code) :
    code.template.toList = code.parts.withValues placeholder := by
  cases code <;> decide +kernel

theorem wellFormed_parts (code : Code) : code.parts.WellFormed := by
  cases code <;> exact ⟨by decide, by decide, by decide⟩

/-- No part of a template begins like the rest of a pair with a dollar sign. -/
theorem begins_parts (code : Code) :
    Begins code.parts.first ∧ ∀ hole ∈ code.parts.holes, Begins hole.2 := by
  cases code <;> decide

/-- The message that quotes the parameters has their texts in place of the placeholders. -/
theorem toList_verbatim {code : Code} {params : Params}
    (hkeys : ∀ p ∈ params, p.1 ∈ code.keys) :
    (code.verbatim params).toList =
      code.parts.withValues (Template.Parts.filled params.written placeholder) := by
  have hparams : ∀ p ∈ params.written, IsKey p.1 := by
    intro p hp
    obtain ⟨q, hq, rfl⟩ := List.mem_map.1 hp
    exact code.wellFormed_parts.isKey (hkeys q hq)
  rw [verbatim, Template.atOnce, String.toList_ofList, template_eq,
    Template.Parts.atOnceFrom_withValues code.wellFormed_parts hparams]

end Code

namespace Diagnostic

variable {code : Code} {params : Params} {place : Option Place}

theorem toList_message (code : Code) (params : Params) (place : Option Place) :
    (make code (some params) place).message.toList =
      params.written.foldl (fun text p => fillOne text p.1 p.2)
        (code.parts.withValues placeholder) := by
  show (Template.fill code.template params.written).toList = _
  rw [Template.fill, String.toList_ofList, Code.template_eq]

/-- **A message quotes its parameters** if their texts have no dollar signs with a meaning
and hold no placeholders that are filled in later. -/
theorem make_verbatim (hkeys : (params.map Prod.fst).Perm code.keys)
    (hplain : ∀ p ∈ params, Plain p.2.written.toList)
    (hlater : params.Pairwise fun p later => ¬ placeholder later.1 <:+: p.2.written.toList) :
    (make code (some params) place).message = code.verbatim params := by
  have hwell := code.wellFormed_parts
  have hmem : ∀ p ∈ params, p.1 ∈ code.keys := fun p hp =>
    hkeys.subset (List.mem_map_of_mem hp)
  have hnames : params.written.map Prod.fst = params.map Prod.fst := List.map_map
  have hnodup : code.keys.Nodup :=
    List.pairwise_map.2 (hwell.apart.imp fun happart => happart.1)
  have hisKey : ∀ p ∈ params.written, p.1 ∈ code.keys := by
    intro p hp
    obtain ⟨q, hq, rfl⟩ := List.mem_map.1 hp
    exact hmem q hq
  refine String.toList_inj.1 ?_
  rw [toList_message, Code.toList_verbatim hmem]
  refine Template.Parts.foldl_fillOne hwell (hnames ▸ hkeys.nodup_iff.2 hnodup) hisKey
    (fun _ _ => rfl) (fun p hp other hother hne => ?_) (fun p hp => ?_) (List.pairwise_map.2 hlater)
  · exact Template.not_placeholder_infix (hwell.isKey (hisKey p hp)) (hwell.isKey hother) hne.symm
  · obtain ⟨q, hq, rfl⟩ := List.mem_map.1 hp
    exact hplain q hq

/-- **A message with one parameter quotes it** just if the text has no dollar sign with a
meaning. -/
theorem make_verbatim_iff {key : String} (hkeys : code.keys = [key]) (value : Param)
    (place : Option Place) :
    (make code (some [(key, value)]) place).message = code.verbatim [(key, value)] ↔
      Plain value.written.toList := by
  obtain ⟨⟨name, literal⟩, holes, hholes, hname, hnil⟩ := List.map_eq_cons_iff.1 hkeys
  obtain rfl := List.map_eq_nil_iff.1 hnil
  obtain rfl : name = key := hname
  have hin : name ∈ code.keys := by
    rw [hkeys]
    exact List.mem_cons_self
  have hkey : IsKey name := code.wellFormed_parts.isKey hin
  have hfirst : ¬ placeholder name <:+: code.parts.first :=
    Template.not_placeholder_infix_of_not_mem code.wellFormed_parts.first
  have hmem : ∀ p ∈ [(name, value)], p.1 ∈ code.keys := List.forall_mem_singleton.2 hin
  obtain ⟨hbegins, hbehind⟩ := code.begins_parts
  rw [hholes] at hbehind
  have hbrace : Begins (placeholder name) := fun c hc => by
    cases hc
    decide
  have hfilled : Template.Parts.filled [(name, value.written)] placeholder name =
      value.written.toList := by
    rw [Template.Parts.filled, List.find?_cons, beq_self_eq_true]
  have hmessage : (make code (some [(name, value)]) place).message.toList =
      code.parts.first ++ (expand code.parts.first (placeholder name) literal
        value.written.toList ++ literal) := by
    rw [toList_message, Template.Parts.withValues, hholes]
    show fillOne (code.parts.first ++ (placeholder name ++ literal ++ [])) name value.written = _
    rw [List.append_nil, Template.fillOne_of_absent hkey hfirst, List.append_assoc]
  have hverbatim : (code.verbatim [(name, value)]).toList =
      code.parts.first ++ (value.written.toList ++ literal) := by
    rw [Code.toList_verbatim hmem, Template.Parts.withValues, hholes]
    show code.parts.first ++ (Template.Parts.filled [(name, value.written)] placeholder name ++
      literal ++ []) = _
    rw [List.append_nil, hfilled]
  rw [← String.toList_inj, hmessage, hverbatim, List.append_cancel_left_eq,
    List.append_cancel_right_eq]
  exact Template.expand_eq_self_iff hbegins hbrace (hbehind _ List.mem_cons_self)

end Diagnostic

/-! ## Counts -/

/-- Digits are laid out with a point, a sign and an `e` at most. -/
theorem Number.inert_layout (n : Nat) (exponent : Int) : Inert (Number.layout n exponent) := by
  have hdigits := Inert.toDigits n
  have hzeros (k : Nat) : Inert (List.replicate k '0') := fun c hc => by
    rw [List.eq_of_mem_replicate hc]
    decide
  have hpart {cs : List Char} (h : ∀ c ∈ cs, c ∈ Nat.toDigits 10 n) : Inert cs :=
    fun c hc => hdigits c (h c hc)
  unfold layout
  simp only
  split
  · exact hdigits.append (hzeros _)
  split
  · exact (hpart fun _ => List.mem_of_mem_take).append
      (.cons (by decide) (hpart fun _ => List.mem_of_mem_drop))
  split
  · exact .cons (by decide) (.cons (by decide) ((hzeros _).append hdigits))
  · have htail (point : Int) : Inert ('e' :: (if point ≤ 0 then '-' else '+') ::
        Nat.toDigits 10 (point - 1).natAbs) := by
      refine .cons (by decide) (.cons ?_ (.toDigits _))
      split <;> decide
    split
    · exact htail _
    · rename_i d hd
      exact .cons (hdigits d (hd ▸ List.mem_cons_self)) (htail _)
    · rename_i d ds _ hds
      rw [hds] at hdigits
      obtain ⟨hd, hds⟩ := List.forall_mem_cons.1 hdigits
      exact .cons hd (.cons (by decide) (.append hds (htail _)))

/-- **A number is written without dollar signs and braces.** -/
theorem Number.inert_text (number : Number) : Inert number.text.toList := by
  cases number with
  | infinite negative => cases negative <;> decide
  | finite value =>
    rw [text]
    by_cases hzero : value.num = 0
    · rw [if_pos hzero]
      decide
    · rw [if_neg hzero]
      extract_lets size
      generalize shortest size = found
      obtain ⟨n, exponent⟩ := found
      rw [String.toList_ofList]
      refine Inert.append ?_ (inert_layout n exponent)
      split
      · decide
      · exact List.forall_mem_nil _

/-- So is a count that is expected. -/
theorem Expected.inert_written (expected : Expected) : Inert expected.param.written.toList := by
  cases expected with
  | exactly n => exact Number.inert_text _
  | atLeast n =>
    show Inert ("at least " ++ toString n).toList
    rw [String.toList_append]
    refine Inert.append (by decide) ?_
    rw [Nat.toString_eq_repr, Nat.toList_repr]
    exact .toDigits n

/-! ## Wrong counts -/

/-- The text of a form is quoted before counts: no dollar sign in it has a meaning, and it
holds neither placeholder of a count. -/
def QuotedBeforeCounts (form : String) : Prop :=
  Plain form.toList ∧ ¬ placeholder "expected" <:+: form.toList ∧
    ¬ placeholder "actual" <:+: form.toList

/-- The parameters of a wrong count. -/
def wrongCountParams (form : String) (expected actual : Param) : Params :=
  [("form", .text form), ("expected", expected), ("actual", actual)]

theorem map_fst_wrongCountParams (form : String) (expected actual : Param) :
    (wrongCountParams form expected actual).map Prod.fst = Code.wrongCount.keys := rfl

/-- The template of a wrong count with texts in place of its placeholders. -/
theorem Code.withValues_wrongCount (values : String → List Char) :
    Code.wrongCount.parts.withValues values =
      "Wrong number of elements in ".toList ++ (values "form" ++ (": expected ".toList ++
        (values "expected" ++ (", got ".toList ++ (values "actual" ++ []))))) := by
  have hparts : Code.wrongCount.parts.withValues values =
      "Wrong number of elements in ".toList ++ ((values "form" ++ ": expected ".toList) ++
        ((values "expected" ++ ", got ".toList) ++ ((values "actual" ++ []) ++ []))) := rfl
  rw [hparts, List.append_assoc, List.append_assoc, List.append_assoc, List.append_nil]

namespace Diagnostic

/-- **The message of a wrong count quotes the form** just if the form is quoted before
counts. -/
theorem make_wrongCount_iff (form : String) {expected actual : Param}
    (hexpected : Inert expected.written.toList) (hactual : Inert actual.written.toList)
    (place : Option Place) :
    (make .wrongCount (some (wrongCountParams form expected actual)) place).message =
      Code.wrongCount.verbatim (wrongCountParams form expected actual) ↔
        QuotedBeforeCounts form := by
  have hkeys := map_fst_wrongCountParams form expected actual
  have hmem : ∀ p ∈ wrongCountParams form expected actual, p.1 ∈ Code.wrongCount.keys :=
    fun p hp => hkeys ▸ List.mem_map_of_mem hp
  constructor
  · intro h
    have hleft := toList_message .wrongCount (wrongCountParams form expected actual) place
    have htexts := hleft.symm.trans ((congrArg String.toList h).trans (Code.toList_verbatim hmem))
    have hwritten : (wrongCountParams form expected actual).written =
        [("form", form), ("expected", expected.written), ("actual", actual.written)] := rfl
    have hform : Template.Parts.filled [("form", form), ("expected", expected.written),
        ("actual", actual.written)] placeholder "form" = form.toList := rfl
    have hexpected' : Template.Parts.filled [("form", form), ("expected", expected.written),
        ("actual", actual.written)] placeholder "expected" = expected.written.toList := rfl
    have hactual' : Template.Parts.filled [("form", form), ("expected", expected.written),
        ("actual", actual.written)] placeholder "actual" = actual.written.toList := rfl
    rw [Code.withValues_wrongCount, Code.withValues_wrongCount, hwritten, hform, hexpected',
      hactual', List.append_nil actual.written.toList] at htexts
    have hfirst : ¬ placeholder "form" <:+: "Wrong number of elements in ".toList :=
      Template.not_placeholder_infix_of_not_mem Code.wrongCount.wellFormed_parts.first
    obtain ⟨hput, hnone⟩ := Template.quoted_of_fill (by decide) (by decide) (by decide) hfirst
      (by decide) (by decide) hexpected hactual htexts
    exact ⟨(Template.expand_eq_self_iff (by decide) (by decide) (by decide)).1 hput, hnone⟩
  · rintro ⟨hplain, hnone, hnone'⟩
    refine make_verbatim (.of_eq hkeys) ?_ ?_
    · exact List.forall_mem_cons.2 ⟨hplain, List.forall_mem_cons.2 ⟨hexpected.plain,
        List.forall_mem_singleton.2 hactual.plain⟩⟩
    · refine .cons (List.forall_mem_cons.2 ⟨hnone, List.forall_mem_singleton.2 hnone'⟩) ?_
      exact .cons (List.forall_mem_singleton.2 (hexpected.absent "actual"))
        (List.pairwise_singleton _ _)

end Diagnostic

/-- The message of the cause quotes what the cause is about. -/
def Cause.Quoted : Cause → Prop
  | .shape fault => Plain fault.message.toList
  | .unterminated _ => True
  | .undefinedName name => Plain name.toList
  | .wrongCount form _ _ => QuotedBeforeCounts form
  | .badNumeral text => Plain text.toList
  | .unknownCommand command => Plain command.toList
  | .backend fault => Plain fault.message.toList

/-- **What the program reports it quotes**, but for these texts. -/
theorem Fault.message_verbatim_iff (fault : Fault) :
    fault.diagnostic.message = fault.cause.code.verbatim fault.cause.params ↔
      fault.cause.Quoted := by
  obtain ⟨cause, span⟩ := fault
  cases cause with
  | shape fault => exact Diagnostic.make_verbatim_iff rfl _ _
  | unterminated offset =>
    refine (Diagnostic.make_verbatim_iff rfl _ _).trans ⟨fun _ => trivial, fun _ => ?_⟩
    exact (Number.inert_text _).plain
  | undefinedName name => exact Diagnostic.make_verbatim_iff rfl _ _
  | wrongCount form expected actual =>
    have hactual : Inert (Param.count actual).written.toList := Number.inert_text _
    exact Diagnostic.make_wrongCount_iff form expected.inert_written hactual _
  | badNumeral text => exact Diagnostic.make_verbatim_iff rfl _ _
  | unknownCommand command => exact Diagnostic.make_verbatim_iff rfl _ _
  | backend fault => exact Diagnostic.make_verbatim_iff rfl _ _

/-- The message of an undefined variable that quotes the name. -/
theorem Code.verbatim_undefinedName (name : String) :
    Code.undefinedName.verbatim [("name", .text name)] = "Undefined variable: " ++ name := by
  have hmem : ∀ p ∈ ([("name", .text name)] : Params), p.1 ∈ Code.undefinedName.keys :=
    List.forall_mem_singleton.2 List.mem_cons_self
  have htext := Code.toList_verbatim hmem
  have hparts : Code.undefinedName.parts.withValues (Template.Parts.filled
      (Params.written [("name", .text name)]) placeholder) =
        "Undefined variable: ".toList ++ ((name.toList ++ []) ++ []) := rfl
  rw [hparts, List.append_nil, List.append_nil, ← String.toList_append] at htext
  exact String.toList_inj.1 htext

/-- A name without a sort is reported, and its message quotes it just if no dollar sign
in it has a meaning. -/
theorem Expr.exists_fault_of_undefined {fractional : Bool} {scope : Scope BaseSort} {name : String}
    (span : Span) (hnumeral : Numeral.startsNumeral name = false)
    (htruth : ¬(name = "true" ∨ name = "false")) (hscope : scope.lookup name = none) :
    ∃ fault, ofAtom fractional scope name span = .error fault ∧
      fault.diagnostic.code = .undefinedName ∧
      (fault.diagnostic.message = "Undefined variable: " ++ name ↔ Plain name.toList) := by
  refine ⟨.found (.undefinedName name) span, ?_, rfl, ?_⟩
  · rw [ofAtom, hnumeral, if_neg Bool.false_ne_true, if_neg htruth, hscope]
  · rw [← Code.verbatim_undefinedName]
    exact Fault.message_verbatim_iff (.found (.undefinedName name) span)

/-- **Messages quote their parameters**, as far as they do. Given the parameters of its
code in any order, a message is the template with their texts in it, all put in at once
and as they are, if no dollar sign in a text has a meaning and no text holds the
placeholder of a parameter that is filled in later; and where there is one parameter,
only then. Of what the program reports this says which messages quote it, for each cause
exactly: counts always, and other texts just if they are such, so the message for an
undefined name is the one with the name in it just if no dollar sign in the name has a
meaning. -/
theorem message_verbatim (code : Code) (params : Params) (place : Option Place)
    (hkeys : (params.map Prod.fst).Perm code.keys) :
    ((∀ p ∈ params, Plain p.2.written.toList) →
      (params.Pairwise fun p later => ¬ placeholder later.1 <:+: p.2.written.toList) →
      (Diagnostic.make code (some params) place).message = code.verbatim params) ∧
    (∀ key value, params = [(key, value)] →
      ((Diagnostic.make code (some params) place).message = code.verbatim params ↔
        Plain value.written.toList)) ∧
    (∀ fault : Fault, fault.diagnostic.message = fault.cause.code.verbatim fault.cause.params ↔
      fault.cause.Quoted) ∧
    ∀ (fractional : Bool) (scope : Scope BaseSort) (name : String) (span : Span),
      Numeral.startsNumeral name = false → ¬(name = "true" ∨ name = "false") →
      scope.lookup name = none →
      ∃ fault, Expr.ofAtom fractional scope name span = .error fault ∧
        fault.diagnostic.code = .undefinedName ∧
        (fault.diagnostic.message = "Undefined variable: " ++ name ↔ Plain name.toList) := by
  refine ⟨fun hplain hlater => ?_, fun key value hone => ?_, Fault.message_verbatim_iff,
    fun fractional scope name span hnumeral htruth hscope => ?_⟩
  · exact Diagnostic.make_verbatim hkeys hplain hlater
  · subst hone
    have hkey : code.keys = [key] := List.perm_singleton.1 hkeys.symm
    exact Diagnostic.make_verbatim_iff hkey value place
  · exact Expr.exists_fault_of_undefined span hnumeral htruth hscope

/-- A form that looks like a placeholder is quoted if that one was filled in before, and
so is a dollar sign at its end. -/
theorem message_verbatim_order :
    let params : Params :=
      [("actual", .text "three"), ("form", .text "{actual}$"), ("expected", .text "two")]
    (params.map Prod.fst).Perm Code.wrongCount.keys ∧
      (∀ p ∈ params, Plain p.2.written.toList) ∧
      (params.Pairwise fun p later => ¬ placeholder later.1 <:+: p.2.written.toList) ∧
      (Diagnostic.make .wrongCount (some params)).message = Code.wrongCount.verbatim params := by
  intro params
  have hkeys : (params.map Prod.fst).Perm Code.wrongCount.keys := by decide
  have hplain : ∀ p ∈ params, Plain p.2.written.toList := by decide
  have hlater : params.Pairwise fun p later => ¬ placeholder later.1 <:+: p.2.written.toList := by
    decide
  obtain ⟨hmake, -⟩ := message_verbatim .wrongCount params none hkeys
  exact ⟨hkeys, hplain, hlater, hmake hplain hlater⟩

/-- Of two dollar signs in a name the message quotes one. -/
theorem message_verbatim_dollars :
    (Diagnostic.make .undefinedName (some [("name", .text "$$")])).message =
        "Undefined variable: $" ∧
      Code.undefinedName.verbatim [("name", .text "$$")] = "Undefined variable: $$" ∧
      (Diagnostic.make .undefinedName (some [("name", .text "$$")])).message ≠
        Code.undefinedName.verbatim [("name", .text "$$")] := by
  decide

end SatScript
