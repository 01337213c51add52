import Mathlib.Tactic.SplitIfs

/-!
# Programs that may fail

What holds of the result of a program if it succeeds, and of its error if it does not.

* `Satisfies`: both at once;
* `Satisfies.bind`, `Satisfies.foldlM`: sequences and loops;
* `Satisfies.mono`: a weaker statement.
-/

namespace TalerExchange

variable {α β ε : Type} {P P' : α → Prop} {Q : β → Prop} {E E' : ε → Prop}

/-- The result has `P`, or the error has `E`. -/
def Satisfies (P : α → Prop) (E : ε → Prop) : Except ε α → Prop
  | .ok a => P a
  | .error e => E e

namespace Satisfies

theorem ok {a : α} (h : P a) : Satisfies P E (.ok a) := h

theorem pure {a : α} (h : P a) : Satisfies P E (Pure.pure a) := h

theorem error {e : ε} (h : E e) : Satisfies P E (.error e) := h

theorem mono {x : Except ε α} (h : Satisfies P E x) (hP : ∀ a, P a → P' a)
    (hE : ∀ e, E e → E' e) : Satisfies P' E' x := by
  cases x with
  | ok a => exact hP a h
  | error e => exact hE e h

theorem bind {x : Except ε α} {f : α → Except ε β} (h : Satisfies P E x)
    (hf : ∀ a, P a → Satisfies Q E (f a)) : Satisfies Q E (x >>= f) := by
  cases x with
  | ok a => exact hf a h
  | error e => exact h

theorem ite {c : Prop} [Decidable c] {x y : Except ε α} (hx : c → Satisfies P E x)
    (hy : ¬ c → Satisfies P E y) : Satisfies P E (if c then x else y) := by
  split_ifs with h
  · exact hx h
  · exact hy h

/-- What each round keeps, the loop keeps. -/
theorem foldlM {f : α → β → Except ε α} {l : List β}
    (hf : ∀ b ∈ l, ∀ a, P a → Satisfies P E (f a b)) {a : α} (ha : P a) :
    Satisfies P E (l.foldlM f a) := by
  induction l generalizing a with
  | nil => exact ha
  | cons b l ih =>
    rw [List.foldlM_cons]
    exact (hf b List.mem_cons_self a ha).bind fun a' ha' =>
      ih (fun c hc => hf c (List.mem_cons_of_mem _ hc)) ha'

theorem of_ok {x : Except ε α} {a : α} (h : Satisfies P E x) (hx : x = .ok a) : P a := by
  rw [hx] at h
  exact h

theorem of_error {x : Except ε α} {e : ε} (h : Satisfies P E x) (hx : x = .error e) : E e := by
  rw [hx] at h
  exact h

end Satisfies

end TalerExchange
