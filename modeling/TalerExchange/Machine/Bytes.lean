import Mathlib.Data.List.Induction
import Mathlib.Algebra.Order.Ring.Nat

/-!
# Words as bytes

Records in network byte order.

* `bigEndian`, `ofBigEndian`: a word and its bytes; **`ofBigEndian_bigEndian`**;
* `slice`: the bytes of a field; `slice_skip`, `slice_here`: fields of a record that is a
  concatenation.
-/

namespace TalerExchange

/-- The last `n` bytes of a number, the highest first. -/
def bigEndian : ℕ → ℕ → List UInt8
  | 0, _ => []
  | n + 1, x => bigEndian n (x / 256) ++ [UInt8.ofNat x]

/-- The number with these bytes. -/
def ofBigEndian (bs : List UInt8) : ℕ := bs.foldl (fun x b => x * 256 + b.toNat) 0

/-- `n` bytes from `i` on. -/
def slice (bs : List UInt8) (i n : ℕ) : List UInt8 := (bs.drop i).take n

@[simp] theorem length_bigEndian (n x : ℕ) : (bigEndian n x).length = n := by
  induction n generalizing x with
  | zero => rfl
  | succ n ih => rw [bigEndian, List.length_append, ih, List.length_singleton]

theorem ofBigEndian_append (bs : List UInt8) (b : UInt8) :
    ofBigEndian (bs ++ [b]) = ofBigEndian bs * 256 + b.toNat := by
  unfold ofBigEndian
  rw [List.foldl_append]
  rfl

/-- **A number that fits is read back.** -/
theorem ofBigEndian_bigEndian {n x : ℕ} (h : x < 256 ^ n) : ofBigEndian (bigEndian n x) = x := by
  induction n generalizing x with
  | zero =>
    rw [pow_zero, Nat.lt_one_iff] at h
    rw [h]
    rfl
  | succ n ih =>
    have hdiv : x / 256 < 256 ^ n := by
      rw [Nat.div_lt_iff_lt_mul (by decide), ← pow_succ]
      exact h
    rw [bigEndian, ofBigEndian_append, ih hdiv, UInt8.toNat_ofNat']
    omega

theorem ofBigEndian_lt (bs : List UInt8) : ofBigEndian bs < 256 ^ bs.length := by
  induction bs using List.reverseRecOn with
  | nil => exact Nat.one_pos
  | append_singleton bs b ih =>
    have hb := b.toNat_lt
    rw [ofBigEndian_append, List.length_append, List.length_singleton, pow_succ]
    omega

/-- A later field. -/
theorem slice_skip {xs : List UInt8} {k : ℕ} (h : xs.length = k) (ys : List UInt8) (i n : ℕ) :
    slice (xs ++ ys) (k + i) n = slice ys i n := by
  unfold slice
  rw [← h, List.drop_append]
  rw [List.drop_eq_nil_of_le (Nat.le_add_right _ _), List.nil_append, Nat.add_sub_cancel_left]

/-- The first field. -/
theorem slice_here {xs : List UInt8} {n : ℕ} (h : xs.length = n) (ys : List UInt8) :
    slice (xs ++ ys) 0 n = xs := by
  unfold slice
  rw [List.drop_zero, ← h]
  exact List.take_left

end TalerExchange
