import Mathlib.Algebra.Order.Ring.Nat
import Mathlib.Tactic.SplitIfs

/-!
# Decimal digits

* `eq_digitChar`: a digit is the one of its value;
* `ofDigitChars_lt`: how large a number of so many digits is.
-/

namespace TalerExchange

theorem eq_digitChar {c : Char} (h : c.isDigit = true) :
    c.toNat - '0'.toNat < 10 ∧ c = Nat.digitChar (c.toNat - '0'.toNat) := by
  have hrange := Char.isDigit_iff_toNat.mp h
  have hzero : '0'.toNat = 48 := rfl
  have hnine : '9'.toNat = 57 := rfl
  have hchar : ∀ d < 10, Char.ofNat (48 + d) = Nat.digitChar d := by decide
  rw [hzero, hnine] at hrange
  have hlt : c.toNat - '0'.toNat < 10 := by omega
  refine ⟨hlt, ?_⟩
  rw [← hchar _ hlt, hzero, Nat.add_sub_cancel' hrange.1, Char.ofNat_toNat]

theorem ofDigitChars_lt : ∀ ds : List Char, (∀ c ∈ ds, c.isDigit = true) →
    Nat.ofDigitChars 10 ds 0 < 10 ^ ds.length
  | [], _ => by decide
  | c :: ds, h => by
    have hc := (eq_digitChar (h c List.mem_cons_self)).1
    have hds := ofDigitChars_lt ds fun x hx => h x (List.mem_cons_of_mem c hx)
    rw [Nat.ofDigitChars_cons, Nat.mul_zero, Nat.zero_add, Nat.ofDigitChars_eq_ofDigitChars_zero,
      List.length_cons, pow_succ]
    have hmul : 10 ^ ds.length * (c.toNat - '0'.toNat) ≤ 10 ^ ds.length * 9 :=
      Nat.mul_le_mul_left _ (by omega)
    omega

end TalerExchange
