import Mathlib.Order.Lattice
import Mathlib.Data.List.Induction

/-!
# The last largest element

A search that replaces its candidate by every element that is not smaller ends with the last of the
largest elements.

* `keepLast`, `lastMax`: the search;
* **`lastMax_eq_some_iff`**: its result splits the list.
-/

namespace TalerExchange

section LastMax

variable {α β : Type} [LinearOrder β] {f : α → β} {l : List α} {a b : α}

/-- One step of the search. -/
def keepLast (f : α → β) (best : Option α) (a : α) : Option α :=
  match best with
  | none => some a
  | some b => if f a < f b then some b else some a

/-- The last of the largest elements. -/
def lastMax (f : α → β) (l : List α) : Option α := l.foldl (keepLast f) none

@[simp] theorem lastMax_nil : lastMax f [] = none := rfl

theorem keepLast_of_le (h : f b ≤ f a) : keepLast f (some b) a = some a :=
  if_neg (not_lt.mpr h)

theorem keepLast_of_lt (h : f a < f b) : keepLast f (some b) a = some b := if_pos h

theorem lastMax_append_singleton : lastMax f (l ++ [a]) = keepLast f (lastMax f l) a := by
  simp only [lastMax, List.foldl_append, List.foldl_cons, List.foldl_nil]

theorem lastMax_eq_none : lastMax f l = none ↔ l = [] := by
  rcases List.eq_nil_or_concat l with rfl | ⟨l, a, rfl⟩
  · simp
  · rw [List.concat_eq_append, lastMax_append_singleton]
    simp only [List.append_eq_nil_iff, List.cons_ne_nil, and_false, iff_false]
    unfold keepLast
    split
    · simp
    · split <;> simp

/-- **The result splits the list**: nothing before it is larger, and everything behind it is smaller. -/
theorem lastMax_eq_some_iff : lastMax f l = some a ↔
    ∃ l₁ l₂, l = l₁ ++ a :: l₂ ∧ (∀ x ∈ l₁, f x ≤ f a) ∧ ∀ x ∈ l₂, f x < f a := by
  induction l using List.reverseRecOn generalizing a with
  | nil => simp
  | append_singleton l c ih =>
    rw [lastMax_append_singleton]
    cases hb : lastMax f l with
    | none =>
      obtain rfl := lastMax_eq_none.mp hb
      show some c = some a ↔ _
      constructor
      · intro h
        obtain rfl := Option.some.inj h
        exact ⟨[], [], rfl, by simp, by simp⟩
      · rintro ⟨l₁, l₂, hl, -, -⟩
        have hlen := congrArg List.length hl
        simp only [List.nil_append, List.length_append, List.length_cons, List.length_nil] at hlen
        obtain rfl := List.length_eq_zero_iff.mp (by omega : l₁.length = 0)
        exact congrArg some (List.cons.inj hl).1
    | some b =>
      obtain ⟨l₁, l₂, rfl, h₁, h₂⟩ := ih.mp hb
      have hle : ∀ x ∈ l₁ ++ b :: l₂, f x ≤ f b := by
        intro x hx
        rcases List.mem_append.mp hx with hx | hx
        · exact h₁ x hx
        · rcases List.mem_cons.mp hx with rfl | hx
          · exact le_rfl
          · exact (h₂ x hx).le
      constructor
      · intro h
        by_cases hc : f c < f b
        · rw [keepLast_of_lt hc] at h
          obtain rfl := Option.some.inj h
          refine ⟨l₁, l₂ ++ [c], by simp, h₁, fun x hx => ?_⟩
          rcases List.mem_append.mp hx with hx | hx
          · exact h₂ x hx
          · exact List.mem_singleton.mp hx ▸ hc
        · rw [keepLast_of_le (not_lt.mp hc)] at h
          obtain rfl := Option.some.inj h
          exact ⟨l₁ ++ b :: l₂, [], rfl, fun x hx => (hle x hx).trans (not_lt.mp hc), by simp⟩
      · rintro ⟨m₁, m₂, hm, hm₁, hm₂⟩
        rcases List.eq_nil_or_concat m₂ with rfl | ⟨m₂, d, rfl⟩
        · obtain ⟨rfl, hd⟩ := List.append_inj' hm rfl
          obtain rfl : c = a := (List.cons.inj hd).1
          exact keepLast_of_le (hm₁ b (by simp))
        · rw [List.concat_eq_append, ← List.cons_append, ← List.append_assoc] at hm
          obtain ⟨hl, hd⟩ := List.append_inj' hm rfl
          obtain rfl : c = d := (List.cons.inj hd).1
          have ha : lastMax f (l₁ ++ b :: l₂) = some a :=
            ih.mpr ⟨m₁, m₂, hl, hm₁, fun x hx => hm₂ x (by simp [hx])⟩
          obtain rfl : b = a := Option.some.inj (hb.symm.trans ha)
          exact keepLast_of_lt (hm₂ c (by simp))

theorem lastMax_mem (h : lastMax f l = some a) : a ∈ l := by
  obtain ⟨l₁, l₂, rfl, -, -⟩ := lastMax_eq_some_iff.mp h
  simp

theorem le_lastMax (h : lastMax f l = some a) (hb : b ∈ l) : f b ≤ f a := by
  obtain ⟨l₁, l₂, rfl, h₁, h₂⟩ := lastMax_eq_some_iff.mp h
  rcases List.mem_append.mp hb with hb | hb
  · exact h₁ b hb
  · rcases List.mem_cons.mp hb with rfl | hb
    · exact le_rfl
    · exact (h₂ b hb).le

end LastMax

end TalerExchange
