import Mathlib.Algebra.Group.Nat.Defs
import Tachometer.Clock

/-! # Ticks

Readings of the clock and spans are counts of ticks in 64 bits. Here their order and differences are
those of the counts as natural numbers, which do not wrap around.

* `Span.lt_iff`, `Span.le_iff`, `Span.toNat_sub` — spans.
* `Instant.since?_eq_some_iff`, `Instant.toNat_since` — the span between two readings.
* `Instant.toNat_since_sub` — what is left of it after a part. -/

namespace Tachometer

namespace Span

/-- Spans are compared tick by tick: `a < b ↔ a.ticks.toNat < b.ticks.toNat`. -/
theorem lt_iff {a b : Span} : a < b ↔ a.ticks.toNat < b.ticks.toNat := UInt64.lt_iff_toNat_lt

/-- Spans are compared tick by tick: `a ≤ b ↔ a.ticks.toNat ≤ b.ticks.toNat`. -/
theorem le_iff {a b : Span} : a ≤ b ↔ a.ticks.toNat ≤ b.ticks.toNat := UInt64.le_iff_toNat_le

/-- A span that is not above zero has no ticks: `¬0 < a ↔ a.ticks.toNat = 0`. -/
theorem not_pos_iff {a : Span} : ¬0 < a ↔ a.ticks.toNat = 0 := by
  rw [lt_iff]
  exact Nat.not_lt.trans Nat.le_zero

/-- What a shorter span leaves of a longer one is the difference in ticks:
`(a - b).ticks.toNat = a.ticks.toNat - b.ticks.toNat`. -/
theorem toNat_sub {a b : Span} (h : b ≤ a) :
    (a - b).ticks.toNat = a.ticks.toNat - b.ticks.toNat := UInt64.toNat_sub_of_le _ _ h

/-- Spans with the same number of ticks are the same: `a = b`. -/
theorem toNat_inj {a b : Span} (h : a.ticks.toNat = b.ticks.toNat) : a = b := by
  obtain ⟨a⟩ := a
  obtain ⟨b⟩ := b
  exact congrArg Span.mk (UInt64.toNat_inj.mp h)

/-- There is a span of any length that the clock can count:
`∃ span : Span, span.ticks.toNat = count`. -/
theorem exists_toNat_eq (count : Nat) (h : count < 2 ^ 64) :
    ∃ span : Span, span.ticks.toNat = count :=
  ⟨⟨.ofNat count⟩, UInt64.toNat_ofNat_of_lt h⟩

end Span

namespace Instant

/-- The span between two readings, in ticks. -/
theorem since?_eq_some_iff {now earlier : Instant} {span : Span} :
    now.since? earlier = some span ↔
      earlier.ticks.toNat + span.ticks.toNat = now.ticks.toNat := by
  have hspan := span.ticks.toNat_lt
  unfold since?
  split
  case isTrue h =>
    have hle := UInt64.le_iff_toNat_le.mp h
    have hsub : (now.ticks - earlier.ticks).toNat = now.ticks.toNat - earlier.ticks.toNat :=
      UInt64.toNat_sub_of_le _ _ h
    constructor
    · rintro hsome
      obtain rfl := Option.some.inj hsome
      show earlier.ticks.toNat + (now.ticks - earlier.ticks).toNat = now.ticks.toNat
      omega
    · intro hsum
      obtain ⟨ticks⟩ := span
      refine congrArg (some ∘ Span.mk) (UInt64.toNat_inj.mp ?_)
      rw [hsub]
      simp only at hsum
      omega
  case isFalse h =>
    have hlt : now.ticks.toNat < earlier.ticks.toNat :=
      UInt64.lt_iff_toNat_lt.mp (UInt64.not_le.mp h)
    constructor
    · intro hsome
      exact absurd hsome (by simp)
    · intro hsum
      omega

/-- A clock that did not go backwards has counted the time between two readings. -/
theorem toNat_since {now earlier : Instant} (h : earlier.ticks.toNat ≤ now.ticks.toNat) :
    earlier.ticks.toNat + (now.since earlier).ticks.toNat = now.ticks.toNat := by
  obtain ⟨gap, hgap⟩ : ∃ gap, now.since? earlier = some gap := by
    rw [← Option.ne_none_iff_exists', Ne, since?_eq_none_iff, UInt64.lt_iff_toNat_lt]
    omega
  rw [since, hgap]
  exact since?_eq_some_iff.mp hgap

/-- The time between two readings in ticks, which is none if the clock went backwards. -/
theorem toNat_since_eq_sub (now earlier : Instant) :
    (now.since earlier).ticks.toNat = now.ticks.toNat - earlier.ticks.toNat := by
  by_cases h : earlier.ticks.toNat ≤ now.ticks.toNat
  · have hsum := toNat_since h
    omega
  · have hlt := Nat.not_le.mp h
    have hnone : now.since? earlier = none :=
      since?_eq_none_iff.mpr (UInt64.lt_iff_toNat_lt.mpr hlt)
    rw [since, hnone, Option.getD_none, Nat.sub_eq_zero_of_le (Nat.le_of_lt hlt)]
    rfl

/-- **What is left** of the time between two readings after a part that is no longer. -/
theorem toNat_since_sub {now earlier : Instant} {part : Span}
    (h : earlier.ticks.toNat + part.ticks.toNat ≤ now.ticks.toNat) :
    part ≤ now.since earlier ∧
      earlier.ticks.toNat + part.ticks.toNat + (now.since earlier - part).ticks.toNat =
        now.ticks.toNat := by
  have hsince := toNat_since_eq_sub now earlier
  have hle : part ≤ now.since earlier := by
    rw [Span.le_iff, hsince]
    omega
  refine ⟨hle, ?_⟩
  rw [Span.toNat_sub hle, hsince]
  omega

/-- There is a reading of the clock any time later that it can count:
`∃ now : Instant, now.since? earlier = some span`. -/
theorem exists_since? (earlier : Instant) (span : Span)
    (h : earlier.ticks.toNat + span.ticks.toNat < 2 ^ 64) :
    ∃ now : Instant, now.since? earlier = some span :=
  ⟨⟨.ofNat (earlier.ticks.toNat + span.ticks.toNat)⟩,
    since?_eq_some_iff.mpr (UInt64.toNat_ofNat_of_lt h).symm⟩

end Instant

end Tachometer
