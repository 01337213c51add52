import Mathlib.Algebra.Order.Ring.Nat
import Mathlib.Tactic.Common

/-!
# Saturating times

Times and durations in microseconds, in words of `64` bits. The largest of them stands for a time that
never comes, and sums that do not fit are it.

* `absoluteAdd`, `absoluteSubtract`, `relativeSubtract`: the operations;
* `absoluteAdd_lt`: what a sum is that comes.
-/

namespace TalerExchange

/-- `GNUNET_TIME_UNIT_FOREVER_ABS`, `GNUNET_TIME_UNIT_FOREVER_REL`. -/
def forever : ℕ := 2 ^ 64 - 1

/-- `GNUNET_TIME_absolute_add`. -/
def absoluteAdd (start duration : ℕ) : ℕ :=
  if start = forever ∨ duration = forever then forever
  else if 2 ^ 64 ≤ start + duration then forever
  else start + duration

/-- `GNUNET_TIME_absolute_subtract`. -/
def absoluteSubtract (start duration : ℕ) : ℕ :=
  if start ≤ duration then 0
  else if start = forever then forever
  else start - duration

/-- `GNUNET_TIME_relative_subtract`. -/
def relativeSubtract (a₁ a₂ : ℕ) : ℕ :=
  if a₁ ≤ a₂ then 0
  else if a₁ = forever then forever
  else a₁ - a₂

/-- A sum that comes is the sum of numbers. -/
theorem absoluteAdd_lt {s d : ℕ} (h : absoluteAdd s d < forever) :
    absoluteAdd s d = s + d ∧ s + d < forever := by
  unfold absoluteAdd at h ⊢
  split_ifs at h ⊢
  · exact absurd h (lt_irrefl _)
  · exact absurd h (lt_irrefl _)
  · exact ⟨rfl, h⟩

theorem absoluteAdd_eq {s d : ℕ} (h : s + d < forever) : absoluteAdd s d = s + d := by
  unfold absoluteAdd
  unfold forever at h ⊢
  split_ifs
  · omega
  · omega
  · rfl

theorem absoluteSubtract_forever {d : ℕ} (h : d < forever) :
    absoluteSubtract forever d = forever := by
  rw [absoluteSubtract, if_neg (not_le.mpr h), if_pos rfl]

theorem relativeSubtract_eq {a₁ a₂ : ℕ} (h : a₁ ≠ forever) : relativeSubtract a₁ a₂ = a₁ - a₂ := by
  unfold relativeSubtract
  split_ifs
  · omega
  · rfl

end TalerExchange
