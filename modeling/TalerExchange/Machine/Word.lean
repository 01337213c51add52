import Mathlib.Algebra.Order.Ring.Int
import Mathlib.Tactic.NormNum

/-!
# Machine words

Integer arithmetic in words. The result of an operation is computed exactly and then stored in a word
by a rule: `wrapping` keeps the low bits, as unsigned arithmetic does, `checked` stops the run when the
result does not fit. A program whose runs agree under both rules has no operation that wraps.

* `WordRule`, `wrapping`, `checked`;
* **`ExactInRange.store`**: a result that fits is stored exactly;
* `bind_eq_ok`, `map_eq_ok`: the parts of a run that ends.
-/

namespace TalerExchange

/-- Why a run stops: an assertion fails, or, with checked arithmetic, a result does not fit. -/
inductive Fault
  | assertion
  | overflow
deriving DecidableEq, Repr

/-- How a result is stored in a word of the given width. -/
abbrev WordRule := (w : ℕ) → ℤ → Except Fault (BitVec w)

/-- Unsigned arithmetic: the low bits are kept. -/
def wrapping : WordRule := fun w x => .ok (BitVec.ofInt w x)

/-- A result that does not fit is a fault. -/
def checked : WordRule := fun w x =>
  if 0 ≤ x ∧ x < 2 ^ w then .ok (BitVec.ofInt w x) else .error .overflow

/-- Results that fit are stored as they are. -/
def ExactInRange (word : WordRule) : Prop :=
  ∀ w x, 0 ≤ x → x < 2 ^ w → word w x = .ok (BitVec.ofInt w x)

theorem exactInRange_wrapping : ExactInRange wrapping := fun _ _ _ _ => rfl

theorem exactInRange_checked : ExactInRange checked := fun _ _ h₀ h₁ => if_pos ⟨h₀, h₁⟩

theorem toNat_ofInt_of_range {w : ℕ} {x : ℤ} (h₀ : 0 ≤ x) (h₁ : x < 2 ^ w) :
    ((BitVec.ofInt w x).toNat : ℤ) = x := by
  rw [BitVec.toNat_ofInt]
  push_cast
  rw [Int.emod_eq_of_lt h₀ h₁]
  omega

/-- **A result that fits is stored exactly.** -/
theorem ExactInRange.store {word : WordRule} (hw : ExactInRange word) {w : ℕ} {x : ℤ} (h₀ : 0 ≤ x)
    (h₁ : x < 2 ^ w) : ∃ b : BitVec w, word w x = .ok b ∧ (b.toNat : ℤ) = x :=
  ⟨BitVec.ofInt w x, hw w x h₀ h₁, toNat_ofInt_of_range h₀ h₁⟩

/-- A run that ends went through its first part. -/
theorem bind_eq_ok {ε α β : Type} {x : Except ε α} {f : α → Except ε β} {b : β} :
    (x >>= f) = .ok b ↔ ∃ a, x = .ok a ∧ f a = .ok b := by
  cases x with
  | error e => exact iff_of_false nofun fun ⟨_, h, _⟩ => nomatch h
  | ok a => exact ⟨fun h => ⟨a, rfl, h⟩, fun ⟨_, h, h'⟩ => Except.ok.inj h ▸ h'⟩

theorem map_eq_ok {ε α β : Type} {x : Except ε α} {f : α → β} {b : β} :
    x.map f = .ok b ↔ ∃ a, x = .ok a ∧ f a = b := by
  cases x with
  | error e => exact iff_of_false nofun fun ⟨_, h, _⟩ => nomatch h
  | ok a => exact ⟨fun h => ⟨a, rfl, Except.ok.inj h⟩, fun ⟨_, h, h'⟩ => Except.ok.inj h ▸ h' ▸ rfl⟩

end TalerExchange
