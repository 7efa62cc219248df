import Mathlib.Tactic.Ring
import EntityStore.Proofs.Config.Ranges

/-! # The delays between attempts

From the second one on, a delay is the first one doubled as often as there were delays before it, or
the longest delay if that is shorter (`Doubles.nanos_delay`).  A delay of 64 bits of milliseconds is
so short that no doubling reaches the longest duration there is, so these are exact numbers. -/

namespace EntityStore

namespace Time.Duration

theorem nanos_double {d : Duration} (h : 2 * d.nanos ≤ max.nanos) : d.double.nanos = 2 * d.nanos :=
  Nat.min_eq_left h

theorem nanos_shorter (d e : Duration) : (d.shorter e).nanos = min d.nanos e.nanos := rfl

/-- Twice a number of milliseconds of 64 bits is a duration. -/
theorem two_mul_ofMillis_le {ms : Nat} (h : ms < unsignedBound) :
    2 * (ofMillis ms).nanos ≤ max.nanos := by
  change 2 * (ms * 1000000) ≤ unsignedBound * 1000000000 - 1
  -- the bound itself is not needed, and too large to compute with
  generalize unsignedBound = bound at h ⊢
  omega

end Time.Duration

namespace Config.RetryPolicy

open Time (Duration)

variable (p : RetryPolicy)

/-- The delay after `k` others. -/
def delay : Nat → Duration
  | 0 => p.baseDelay
  | k + 1 => p.nextDelay (delay k)

theorem delaysFrom_delay (count : Nat) :
    ∀ k, p.delaysFrom (p.delay k) count = (List.range' k count).map p.delay := by
  induction count with
  | zero => exact fun _ => rfl
  | succ count ih =>
      intro k
      rw [delaysFrom, List.range'_succ, List.map_cons, ← ih (k + 1)]
      rfl

theorem delays_eq_map (count : Nat) : p.delays count = (List.range count).map p.delay := by
  rw [delays, List.range_eq_range', ← delaysFrom_delay]
  rfl

/-- Twice the first delay and twice the longest one are durations. -/
structure Doubles : Prop where
  baseDelay : 2 * p.baseDelay.nanos ≤ Duration.max.nanos
  maxDelay : 2 * p.maxDelay.nanos ≤ Duration.max.nanos

variable {p}

theorem nextDelay_le (d : Duration) : (p.nextDelay d).nanos ≤ p.maxDelay.nanos :=
  Nat.min_le_right _ _

theorem Doubles.delay (h : p.Doubles) : ∀ k, 2 * (p.delay k).nanos ≤ Duration.max.nanos
  | 0 => h.baseDelay
  | k + 1 => Nat.le_trans (Nat.mul_le_mul_left 2 (nextDelay_le (p.delay k))) h.maxDelay

/-- One delay after another. -/
theorem Doubles.nanos_delay_succ (h : p.Doubles) (k : Nat) :
    (p.delay (k + 1)).nanos = min (2 * (p.delay k).nanos) p.maxDelay.nanos := by
  rw [RetryPolicy.delay, nextDelay, Duration.nanos_shorter, Duration.nanos_double (h.delay k)]

/-- The delays as a function of how many there were before.  What the minimum takes away before a
doubling it would take away after it. -/
theorem Doubles.nanos_delay (h : p.Doubles) (k : Nat) :
    (p.delay (k + 1)).nanos = min (p.baseDelay.nanos * 2 ^ (k + 1)) p.maxDelay.nanos := by
  induction k with
  | zero => rw [h.nanos_delay_succ, RetryPolicy.delay, Nat.zero_add, pow_one, Nat.mul_comm]
  | succ k ih =>
      have hpow : p.baseDelay.nanos * 2 ^ (k + 2) = 2 * (p.baseDelay.nanos * 2 ^ (k + 1)) := by ring
      rw [h.nanos_delay_succ, ih, hpow]
      omega

example : (standard.delays 6).map Duration.toMillis = [100, 200, 400, 800, 1600, 2000] := by decide

theorem doubles_ofSettings {d : DatabaseSettings} (h : d.InRange) : (ofSettings d).Doubles where
  baseDelay := Duration.two_mul_ofMillis_le h.baseDelay
  maxDelay := Duration.two_mul_ofMillis_le h.maxDelay

/-- The delays for any settings of a database.  From the second one on, a delay is the first one
doubled `k` times or the longest delay, whichever is shorter, and no doubling is cut off where the
longest duration is.  So these delays never decrease and none is above the longest delay; the first
one is as it was set.  A statement is tried at least once. -/
theorem backoff_capped {d : DatabaseSettings} (hd : d.InRange) :
    let p := ofSettings d
    1 ≤ p.maxAttempts ∧
    (∀ count, p.delays count = (List.range count).map p.delay) ∧
    (p.delay 0).nanos = d.retryBaseDelayMs * 1000000 ∧
    (∀ k, p.delay (k + 1) = p.nextDelay (p.delay k) ∧
      (p.delay k).double.nanos = 2 * (p.delay k).nanos) ∧
    (∀ k, 1 ≤ k → (p.delay k).nanos =
      min (d.retryBaseDelayMs * 1000000 * 2 ^ k) (d.retryMaxDelayMs * 1000000)) ∧
    ∀ j k, 1 ≤ j → j ≤ k → (p.delay j).nanos ≤ (p.delay k).nanos ∧
      (p.delay k).nanos ≤ p.maxDelay.nanos := by
  intro p
  have hdoubles : p.Doubles := doubles_ofSettings hd
  have hclosed : ∀ k, 1 ≤ k → (p.delay k).nanos =
      min (d.retryBaseDelayMs * 1000000 * 2 ^ k) (d.retryMaxDelayMs * 1000000) := by
    intro k hk
    obtain ⟨k, rfl⟩ := Nat.exists_eq_add_of_le' hk
    exact hdoubles.nanos_delay k
  refine ⟨Nat.le_max_right _ _, p.delays_eq_map, rfl,
    fun k => ⟨rfl, Duration.nanos_double (hdoubles.delay k)⟩, hclosed, fun j k hj hjk => ?_⟩
  have hpow : d.retryBaseDelayMs * 1000000 * 2 ^ j ≤ d.retryBaseDelayMs * 1000000 * 2 ^ k :=
    Nat.mul_le_mul_left _ (Nat.pow_le_pow_right Nat.two_pos hjk)
  rw [hclosed j hj, hclosed k (hj.trans hjk)]
  exact ⟨min_le_min_right _ hpow, min_le_right _ _⟩

/-- No attempt at all, one millisecond at first, and the longest delay that can be set. -/
def widestSettings : DatabaseSettings :=
  { DatabaseSettings.standard with
    retryMaxAttempts := 0, retryBaseDelayMs := 1, retryMaxDelayMs := unsignedBound - 1 }

/-- The delay doubles to 2⁶³ milliseconds, and from then on is the longest one. -/
theorem backoff_capped_widest :
    let p := ofSettings widestSettings
    widestSettings.InRange ∧ 1 ≤ p.maxAttempts ∧
      (p.delay 63).nanos = 9223372036854775808 * 1000000 ∧
      (p.delay 64).nanos = 18446744073709551615 * 1000000 ∧
      (p.delay 1000).nanos = 18446744073709551615 * 1000000 := by
  have hrange : widestSettings.InRange :=
    ⟨by decide, by decide, by decide, by decide⟩
  obtain ⟨hattempts, -, -, -, hclosed, hmono⟩ := backoff_capped hrange
  have hlast : ((ofSettings widestSettings).delay 64).nanos = 18446744073709551615 * 1000000 :=
    (hclosed 64 (by decide)).trans (by decide)
  obtain ⟨hlow, hhigh⟩ := hmono 64 1000 (by decide) (by decide)
  exact ⟨hrange, hattempts, (hclosed 63 (by decide)).trans (by decide), hlast,
    Nat.le_antisymm hhigh (hlast ▸ hlow)⟩

end Config.RetryPolicy
end EntityStore
