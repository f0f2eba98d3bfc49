/-!
# SatScript — spans

A span is a half-open range of offsets, in code units; a place is a span
in a named source, or in the one script at hand.
-/

namespace SatScript

/-- A half-open range of offsets. -/
structure Span where
  start : Int
  stop : Int
deriving DecidableEq

/-- A span, with the name of its source when there are several. -/
structure Place where
  source : Option String := none
  span : Span
deriving DecidableEq

namespace Span

/-- Whether the offset lies in the span. -/
def covers (span : Span) (offset : Int) : Bool := span.start ≤ offset && offset < span.stop

/-- Whether each span begins before the other ends. -/
def overlaps (first second : Span) : Bool :=
  first.start < second.stop && second.start < first.stop

theorem covers_iff {span : Span} {offset : Int} :
    span.covers offset = true ↔ span.start ≤ offset ∧ offset < span.stop := by
  rw [covers, Bool.and_eq_true, decide_eq_true_eq, decide_eq_true_eq]

/-- Spans do not overlap if one of them ends before the other begins. -/
theorem overlaps_eq_false_iff {first second : Span} :
    first.overlaps second = false ↔ second.stop ≤ first.start ∨ first.stop ≤ second.start := by
  rw [overlaps, Bool.and_eq_false_iff, decide_eq_false_iff_not, decide_eq_false_iff_not,
    Int.not_lt, Int.not_lt]

/-- Overlapping is symmetric. -/
theorem overlaps_comm (first second : Span) : first.overlaps second = second.overlaps first := by
  simp [overlaps, Bool.and_comm]

/-- Spans that cover an offset in common overlap. -/
theorem overlaps_of_covers {first second : Span} {offset : Int}
    (h₁ : first.covers offset = true) (h₂ : second.covers offset = true) :
    first.overlaps second = true := by
  rw [covers_iff] at h₁ h₂
  simp only [overlaps, Bool.and_eq_true, decide_eq_true_eq]
  omega

end Span

end SatScript
