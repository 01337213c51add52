import Mathlib.Algebra.Order.Ring.Int
import Mathlib.Tactic.SplitIfs

/-!
# Integers of PostgreSQL

`INT4` and `INT8` are signed, and a result out of range is an error. An unsigned number that a program
binds to a parameter of the same width is read as a signed one.

* `int4`, `int8`: the types as checks of a result;
* `stored`, `loaded`: an unsigned number as the column has it, and back;
* `stored_injective`: different numbers are different in the column.
-/

namespace Sql

/-! ## Results -/

/-- Errors of PostgreSQL. -/
inductive PgError
  | numericValueOutOfRange
  | wrongObjectType
  | raiseException
  | divisionByZero
deriving DecidableEq, Repr

/-- `INT4`. -/
def int4 (x : ℤ) : Except PgError ℤ :=
  if -2 ^ 31 ≤ x ∧ x < 2 ^ 31 then .ok x else .error .numericValueOutOfRange

/-- `INT8`. -/
def int8 (x : ℤ) : Except PgError ℤ :=
  if -2 ^ 63 ≤ x ∧ x < 2 ^ 63 then .ok x else .error .numericValueOutOfRange

theorem int4_eq {x : ℤ} (h₀ : -2 ^ 31 ≤ x) (h₁ : x < 2 ^ 31) : int4 x = .ok x := if_pos ⟨h₀, h₁⟩

theorem int8_eq {x : ℤ} (h₀ : -2 ^ 63 ≤ x) (h₁ : x < 2 ^ 63) : int8 x = .ok x := if_pos ⟨h₀, h₁⟩

theorem int4_bind_eq_ok {α : Type} {x : ℤ} {f : ℤ → Except PgError α} {r : α} :
    (int4 x >>= f) = .ok r ↔ (-2 ^ 31 ≤ x ∧ x < 2 ^ 31) ∧ f x = .ok r := by
  unfold int4
  split_ifs with h
  · exact (and_iff_right h).symm
  · exact ⟨fun hr => (nomatch hr), fun hr => absurd hr.1 h⟩

theorem int8_bind_eq_ok {α : Type} {x : ℤ} {f : ℤ → Except PgError α} {r : α} :
    (int8 x >>= f) = .ok r ↔ (-2 ^ 63 ≤ x ∧ x < 2 ^ 63) ∧ f x = .ok r := by
  unfold int8
  split_ifs with h
  · exact (and_iff_right h).symm
  · exact ⟨fun hr => (nomatch hr), fun hr => absurd hr.1 h⟩

theorem int4_eq_ok {n m : ℤ} : int4 n = .ok m ↔ (-2 ^ 31 ≤ n ∧ n < 2 ^ 31) ∧ n = m := by
  unfold int4
  split_ifs with h
  · rw [Except.ok.injEq]
    exact (and_iff_right h).symm
  · exact ⟨fun hm => (nomatch hm), fun hm => absurd hm.1 h⟩

theorem int8_eq_ok {n m : ℤ} : int8 n = .ok m ↔ (-2 ^ 63 ≤ n ∧ n < 2 ^ 63) ∧ n = m := by
  unfold int8
  split_ifs with h
  · rw [Except.ok.injEq]
    exact (and_iff_right h).symm
  · exact ⟨fun hm => (nomatch hm), fun hm => absurd hm.1 h⟩

/-! ## Columns -/

/-- An unsigned integer of `w` bits as the signed column has it. -/
def stored (w n : ℕ) : ℤ := if n < 2 ^ (w - 1) then n else (n : ℤ) - 2 ^ w

/-- A signed column read into an unsigned integer of `w` bits. -/
def loaded (w : ℕ) (z : ℤ) : ℕ := (z % 2 ^ w).toNat

theorem uint32_pos : (0 : ℕ) < 2 ^ 32 := by decide

section Columns

variable {w : ℕ}

theorem stored_of_lt {n : ℕ} (h : n < 2 ^ (w - 1)) : stored w n = n := if_pos h

theorem loaded_of_lt {n : ℕ} (h : n < 2 ^ (w - 1)) : loaded w n = n := by
  have hle : 2 ^ (w - 1) ≤ 2 ^ w := Nat.pow_le_pow_right (by decide) (Nat.sub_le ..)
  unfold loaded
  have hmod : (n : ℤ) % 2 ^ w = n := Int.emod_eq_of_lt (by omega) (by exact_mod_cast h.trans_le hle)
  rw [hmod, Int.toNat_natCast]

theorem loaded_lt (w : ℕ) (z : ℤ) : loaded w z < 2 ^ w := by
  have hpos : (0 : ℤ) < 2 ^ w := Int.pow_pos (by decide)
  have hlt := Int.emod_lt_of_pos z hpos
  have hnn := Int.emod_nonneg z hpos.ne'
  have hcast : ((loaded w z : ℕ) : ℤ) < (2 ^ w : ℕ) := by
    rw [loaded, Int.toNat_of_nonneg hnn]
    exact_mod_cast hlt
  exact_mod_cast hcast

/-- Different unsigned integers are different in the column. -/
theorem stored_injective {m n : ℕ} (hm : m < 2 ^ w) (hn : n < 2 ^ w)
    (h : stored w m = stored w n) : m = n := by
  have hm' : (m : ℤ) < 2 ^ w := by exact_mod_cast hm
  have hn' : (n : ℤ) < 2 ^ w := by exact_mod_cast hn
  unfold stored at h
  split_ifs at h <;> omega

end Columns

end Sql
