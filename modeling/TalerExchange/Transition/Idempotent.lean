import Mathlib.Data.List.Basic

/-!
# Idempotent steps that commute

A partial step function `f : σ → α → Option σ` applied along a list. If the elements commute and
an element that was applied once has no effect any more, then the order and the repetitions do not
matter: the result depends on the set of elements only.

* `applyAll`: the steps along a list, `none` as soon as one fails; `applyAll_forall`: what holds of
  its elements in the end;
* `Steady f l`: the elements of `l` commute, and each is absorbed for good once it was applied;
* **`applyAll_congr`**: two lists with the same elements lead to the same state.
-/

namespace Transition

variable {σ α : Type} {f : σ → α → Option σ}

/-- The steps along a list, `none` as soon as one fails. -/
def applyAll (f : σ → α → Option σ) : σ → List α → Option σ
  | s, [] => some s
  | s, a :: l => (f s a).bind fun t => applyAll f t l

theorem applyAll_cons {s t : σ} {a : α} {l : List α} :
    applyAll f s (a :: l) = some t ↔ ∃ u, f s a = some u ∧ applyAll f u l = some t :=
  Option.bind_eq_some_iff

theorem applyAll_append {s t : σ} {l l' : List α} : applyAll f s (l ++ l') = some t ↔
    ∃ u, applyAll f s l = some u ∧ applyAll f u l' = some t := by
  induction l generalizing s with
  | nil => exact ⟨fun h => ⟨s, rfl, h⟩, fun ⟨_, h, h'⟩ => Option.some.inj h ▸ h'⟩
  | cons a l ih =>
    rw [List.cons_append, applyAll_cons]
    constructor
    · rintro ⟨u, hu, h⟩
      obtain ⟨v, hv, h⟩ := ih.mp h
      exact ⟨v, applyAll_cons.mpr ⟨u, hu, hv⟩, h⟩
    · rintro ⟨v, hv, h⟩
      obtain ⟨u, hu, hv⟩ := applyAll_cons.mp hv
      exact ⟨u, hu, ih.mpr ⟨v, hv, h⟩⟩

/-- A property that a step keeps is kept along a list. -/
theorem applyAll_invariant {I : σ → Prop} (hI : ∀ {s t a}, f s a = some t → I s → I t) {l : List α}
    {s t : σ} (h : applyAll f s l = some t) (hs : I s) : I t := by
  induction l generalizing s with
  | nil =>
    cases h
    exact hs
  | cons a l ih =>
    obtain ⟨u, hu, h⟩ := applyAll_cons.mp h
    exact ih h (hI hu hs)

/-- What each element brings about and all steps keep holds of all elements in the end. -/
theorem applyAll_forall {P : σ → α → Prop} (hafter : ∀ {s t a}, f s a = some t → P t a)
    (hkeep : ∀ {s t a b}, f s b = some t → P s a → P t a) {l : List α} {s t : σ}
    (h : applyAll f s l = some t) : ∀ a ∈ l, P t a := by
  induction l generalizing s with
  | nil => exact fun _ h => nomatch h
  | cons b l ih =>
    obtain ⟨u, hu, htl⟩ := applyAll_cons.mp h
    intro a ha
    rcases List.mem_cons.mp ha with rfl | ha
    · exact applyAll_invariant (I := fun s => P s a) hkeep htl (hafter hu)
    · exact ih htl a ha

/-- The elements of a list commute, and each is absorbed for good once it was applied. -/
structure Steady (f : σ → α → Option σ) (l : List α) : Prop where
  comm : ∀ a ∈ l, ∀ b ∈ l, ∀ {s t u}, f s a = some t → f t b = some u →
    ∃ t', f s b = some t' ∧ f t' a = some u
  idem : ∀ a ∈ l, ∀ {s t}, f s a = some t → f t a = some t
  stays : ∀ a ∈ l, ∀ b ∈ l, ∀ {s t}, f s a = some s → f s b = some t → f t a = some t

namespace Steady

variable {l m : List α} {s t : σ}

theorem mono (h : Steady f l) (hm : ∀ a ∈ m, a ∈ l) : Steady f m where
  comm a ha b hb := h.comm a (hm a ha) b (hm b hb)
  idem a ha := h.idem a (hm a ha)
  stays a ha b hb := h.stays a (hm a ha) b (hm b hb)

theorem tail {a : α} (h : Steady f (a :: l)) : Steady f l :=
  h.mono fun _ => List.mem_cons_of_mem _

/-- An element of the list may come first as well. -/
theorem front (h : Steady f l) (hl : applyAll f s l = some t) {a : α} (ha : a ∈ l) :
    ∃ u, f s a = some u ∧ applyAll f u l = some t := by
  induction l generalizing s with
  | nil => cases ha
  | cons b l ih =>
    obtain ⟨u, hu, htl⟩ := applyAll_cons.mp hl
    rcases List.mem_cons.mp ha with rfl | hmem
    · exact ⟨u, hu, applyAll_cons.mpr ⟨u, h.idem a List.mem_cons_self hu, htl⟩⟩
    · obtain ⟨v, hv, htl⟩ := ih h.tail htl hmem
      obtain ⟨u', hu', hv'⟩ := h.comm b List.mem_cons_self a ha hu hv
      exact ⟨u', hu', applyAll_cons.mpr ⟨v, hv', htl⟩⟩

/-- Elements that are absorbed change nothing. -/
theorem absorb (hs : ∀ a ∈ l, f s a = some s) : applyAll f s l = some s := by
  induction l with
  | nil => rfl
  | cons a l ih =>
    refine applyAll_cons.mpr ⟨s, hs a List.mem_cons_self, ih fun b hb => ?_⟩
    exact hs b (List.mem_cons_of_mem _ hb)

theorem stays_all (h : Steady f l) (hm : ∀ b ∈ m, b ∈ l) {a : α} (ha : a ∈ l)
    (hs : f s a = some s) (ht : applyAll f s m = some t) : f t a = some t := by
  induction m generalizing s with
  | nil =>
    cases ht
    exact hs
  | cons b m ih =>
    obtain ⟨u, hu, ht⟩ := applyAll_cons.mp ht
    refine ih (fun x hx => hm x (List.mem_cons_of_mem _ hx)) ?_ ht
    exact h.stays a ha b (hm b List.mem_cons_self) hs hu

/-- Everything that was applied is absorbed. -/
theorem absorbed (h : Steady f l) (hl : applyAll f s l = some t) : ∀ a ∈ l, f t a = some t := by
  induction l generalizing s with
  | nil => exact fun a ha => nomatch ha
  | cons b l ih =>
    obtain ⟨u, hu, htl⟩ := applyAll_cons.mp hl
    intro a ha
    rcases List.mem_cons.mp ha with rfl | hmem
    · exact h.stays_all (fun x hx => List.mem_cons_of_mem _ hx) ha (h.idem a ha hu) htl
    · exact ih h.tail htl a hmem

/-- Elements of the list may come first as well. -/
theorem prepend (h : Steady f l) (hm : ∀ a ∈ m, a ∈ l) (hl : applyAll f s l = some t) :
    ∃ u, applyAll f s m = some u ∧ applyAll f u l = some t := by
  induction m generalizing s with
  | nil => exact ⟨s, rfl, hl⟩
  | cons a m ih =>
    obtain ⟨v, hv, hl⟩ := h.front hl (hm a List.mem_cons_self)
    obtain ⟨u, hu, hl⟩ := ih (fun x hx => hm x (List.mem_cons_of_mem _ hx)) hl
    exact ⟨u, applyAll_cons.mpr ⟨v, hv, hu⟩, hl⟩

end Steady

/-- **Only the set of elements matters.** -/
theorem applyAll_congr {l m : List α} {s t : σ} (h : Steady f l) (hm : ∀ a, a ∈ m ↔ a ∈ l)
    (hl : applyAll f s l = some t) : applyAll f s m = some t := by
  obtain ⟨u, hu, hl⟩ := h.prepend (fun a ha => (hm a).mp ha) hl
  have habs := (h.mono fun a ha => (hm a).mp ha).absorbed hu
  have hstop := Steady.absorb fun a ha => habs a ((hm a).mpr ha)
  rw [hstop] at hl
  rw [← hl]
  exact hu

end Transition
