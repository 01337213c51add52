import Mathlib.Tactic.Common
import Mathlib.Tactic.SplitIfs
import Mathlib.Data.List.Basic

/-!
# Binary search

The search of libc for the element of an array that matches a key. The comparator tells whether the key
comes before an element, matches it, or comes behind it.

* `bsearchLoop`, `bsearch`: the search;
* `Bisects`: two elements stand in the order of the comparator;
* **`bsearch_eq_none_iff`**: in an array in this order a match is found if there is one.
-/

namespace TalerExchange

section Bsearch

variable {α : Type} {cmp : α → Ordering} {l : List α} {a : α} {fuel lo hi : ℕ}

/-- The loop over the elements from `lo` up to `hi`. -/
def bsearchLoop (cmp : α → Ordering) (l : List α) : ℕ → ℕ → ℕ → Option α
  | 0, _, _ => none
  | fuel + 1, lo, hi =>
    if lo < hi then
      match l[(lo + hi) / 2]? with
      | none => none
      | some a =>
        match cmp a with
        | .lt => bsearchLoop cmp l fuel lo ((lo + hi) / 2)
        | .gt => bsearchLoop cmp l fuel ((lo + hi) / 2 + 1) hi
        | .eq => some a
    else none

/-- `bsearch`: an element that matches. -/
def bsearch (cmp : α → Ordering) (l : List α) : Option α := bsearchLoop cmp l l.length 0 l.length

/-- If the key comes before the first of two elements, it comes before the second, and if it comes behind
the second, it comes behind the first. -/
def Bisects (cmp : α → Ordering) (x y : α) : Prop :=
  (cmp x = .lt → cmp y = .lt) ∧ (cmp y = .gt → cmp x = .gt)

theorem bsearchLoop_sound (h : bsearchLoop cmp l fuel lo hi = some a) : a ∈ l ∧ cmp a = .eq := by
  induction fuel generalizing lo hi with
  | zero => cases h
  | succ fuel ih =>
    unfold bsearchLoop at h
    split_ifs at h with hlt
    split at h
    · cases h
    · next b hm =>
      split at h
      · exact ih h
      · exact ih h
      · next hc =>
        cases h
        exact ⟨List.mem_of_getElem? hm, hc⟩

theorem bsearchLoop_complete (hl : l.Pairwise (Bisects cmp)) (hf : hi - lo ≤ fuel)
    (hlen : hi ≤ l.length) (h : bsearchLoop cmp l fuel lo hi = none) {i : ℕ} (hlo : lo ≤ i)
    (hhi : i < hi) (ha : l[i]? = some a) : cmp a ≠ .eq := by
  induction fuel generalizing lo hi with
  | zero => omega
  | succ fuel ih =>
    unfold bsearchLoop at h
    rw [if_pos (by omega)] at h
    have hmid : (lo + hi) / 2 < l.length := by omega
    rw [List.getElem?_eq_getElem hmid] at h
    simp only at h
    have hpair : ∀ j k (hj : j < l.length) (hk : k < l.length), j < k → Bisects cmp l[j] l[k] :=
      List.pairwise_iff_getElem.mp hl
    obtain ⟨hil, rfl⟩ := List.getElem?_eq_some_iff.mp ha
    split at h
    · next hc =>
      -- everything from the middle on comes behind the key
      rcases Nat.lt_or_ge i ((lo + hi) / 2) with hlt | hge
      · exact ih (by omega) (by omega) h hlo hlt
      · rcases Nat.eq_or_lt_of_le hge with rfl | hgt
        · rw [hc]
          decide
        · rw [(hpair _ _ hmid hil hgt).1 hc]
          decide
    · next hc =>
      rcases Nat.lt_or_ge ((lo + hi) / 2) i with hlt | hge
      · exact ih (by omega) hlen h hlt hhi
      · rcases Nat.eq_or_lt_of_le hge with rfl | hgt
        · rw [hc]
          decide
        · rw [(hpair _ _ hil hmid hgt).2 hc]
          decide
    · cases h

theorem bsearch_sound (h : bsearch cmp l = some a) : a ∈ l ∧ cmp a = .eq := bsearchLoop_sound h

/-- **A match is found if there is one.** -/
theorem bsearch_eq_none_iff (hl : l.Pairwise (Bisects cmp)) :
    bsearch cmp l = none ↔ ∀ a ∈ l, cmp a ≠ .eq := by
  constructor
  · intro h a ha
    obtain ⟨i, hi, rfl⟩ := List.mem_iff_getElem.mp ha
    exact bsearchLoop_complete hl (Nat.sub_le _ 0) (Nat.le_refl _) h (Nat.zero_le i) hi (List.getElem?_eq_getElem hi)
  · intro h
    cases hb : bsearch cmp l with
    | none => rfl
    | some a => exact absurd (bsearch_sound hb).2 (h a (bsearch_sound hb).1)

end Bsearch

end TalerExchange
