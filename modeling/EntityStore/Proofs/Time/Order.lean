import EntityStore.Time.Instant
import Mathlib.Data.Prod.Lex
import Mathlib.Order.Basic

/-! # The order of instants

An instant is before another one if its second is, or if the seconds are the same and its
nanoseconds are fewer; a leap second is after the second that it continues.  Cutting off what is
below a microsecond keeps the order (`toMicros_le_toMicros`). -/

namespace EntityStore.Time.Instant

/-- Seconds first, then nanoseconds. -/
def orderKey (i : Instant) : Int ×ₗ Nat := toLex (i.seconds, i.nanos)

theorem orderKey_injective : Function.Injective orderKey := by
  intro i j h
  have hpair : (i.seconds, i.nanos) = (j.seconds, j.nanos) := toLex.injective h
  obtain ⟨seconds, nanos⟩ := i
  obtain ⟨seconds', nanos'⟩ := j
  cases hpair
  rfl

instance : LinearOrder Instant := LinearOrder.lift' orderKey orderKey_injective

theorem le_iff {i j : Instant} :
    i ≤ j ↔ i.seconds < j.seconds ∨ i.seconds = j.seconds ∧ i.nanos ≤ j.nanos :=
  Prod.Lex.toLex_le_toLex

theorem toMicros_le_toMicros {i j : Instant} (h : i ≤ j) : i.toMicros ≤ j.toMicros := by
  rw [le_iff] at h ⊢
  simp only [toMicros]
  omega

end EntityStore.Time.Instant
