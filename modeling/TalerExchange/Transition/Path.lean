import Mathlib.Algebra.Order.Ring.Int
import Mathlib.Logic.Relation

/-!
# Labelled transitions and runs

A transition system is a relation `R s e t`: label `e` leads from `s` to `t`. A path may be
restricted to the labels that a condition admits in the state before the step. A *run* applies a
total step function to a list of operations.

* `Path.invariant`: a property that every admitted step keeps is kept along a path;
* `Admits`: every operation of a run meets a condition in the state it is applied to;
* **`run_invariant`**: the same for runs;
* **`throughout_iff`**: when a property holds in every state of a run;
* `tally`: the weights of the steps of a run together; **`tally_eq`** finds them in the last state;
* `gain`: what selected steps of a run add to a quantity; **`gain_eq`** does the same for it.
-/

namespace Transition

variable {σ ε ω : Type}

/-- Paths of `R` whose steps all meet `C` in the state before them. -/
inductive Path (R : σ → ε → σ → Prop) (C : σ → ε → Prop) : σ → σ → Prop
  | refl (s : σ) : Path R C s s
  | tail {s t u : σ} {e : ε} : Path R C s t → C t e → R t e u → Path R C s u

namespace Path

variable {R : σ → ε → σ → Prop} {C : σ → ε → Prop} {s t u : σ}

theorem single {e : ε} (hc : C s e) (h : R s e t) : Path R C s t :=
  .tail (.refl s) hc h

theorem trans (h₁ : Path R C s t) (h₂ : Path R C t u) : Path R C s u := by
  induction h₂ with
  | refl => exact h₁
  | tail _ hc h ih => exact .tail ih hc h

/-- A property that every admitted step keeps is kept along a path. -/
theorem invariant {I : σ → Prop} (hstep : ∀ s e t, C s e → R s e t → I s → I t)
    (h : Path R C s t) (hs : I s) : I t := by
  induction h with
  | refl => exact hs
  | tail _ hc h ih => exact hstep _ _ _ hc h ih

end Path

/-! ## Runs -/

variable (step : σ → ω → σ)

/-- The state after a list of operations. -/
def run (s : σ) (ops : List ω) : σ := ops.foldl step s

/-- Every operation meets `ok` in the state it is applied to. -/
def Admits (ok : σ → ω → Prop) : σ → List ω → Prop
  | _, [] => True
  | s, o :: ops => ok s o ∧ Admits ok (step s o) ops

instance Admits.decidable (ok : σ → ω → Prop) [∀ s o, Decidable (ok s o)] :
    (s : σ) → (ops : List ω) → Decidable (Admits step ok s ops)
  | _, [] => .isTrue trivial
  | s, o :: ops =>
    have := Admits.decidable ok (step s o) ops
    inferInstanceAs (Decidable (ok s o ∧ Admits step ok (step s o) ops))

variable {step}

@[simp] theorem run_nil (s : σ) : run step s [] = s := rfl

@[simp] theorem run_cons (s : σ) (o : ω) (ops : List ω) :
    run step s (o :: ops) = run step (step s o) ops := rfl

theorem run_append (s : σ) (ops ops' : List ω) :
    run step s (ops ++ ops') = run step (run step s ops) ops' :=
  List.foldl_append

theorem admits_true {s : σ} (ops : List ω) : Admits step (fun _ _ => True) s ops := by
  induction ops generalizing s with
  | nil => trivial
  | cons o ops ih => exact ⟨trivial, ih⟩

theorem Admits.mono {ok ok' : σ → ω → Prop} (h : ∀ s o, ok s o → ok' s o) {s : σ} {ops : List ω}
    (ha : Admits step ok s ops) : Admits step ok' s ops := by
  induction ops generalizing s with
  | nil => trivial
  | cons o ops ih => exact ⟨h s o ha.1, ih ha.2⟩

theorem Admits.and {ok ok' : σ → ω → Prop} {s : σ} {ops : List ω} (h : Admits step ok s ops)
    (h' : Admits step ok' s ops) : Admits step (fun s o => ok s o ∧ ok' s o) s ops := by
  induction ops generalizing s with
  | nil => trivial
  | cons o ops ih => exact ⟨⟨h.1, h'.1⟩, ih h.2 h'.2⟩

/-- The steps before one and the step itself. -/
theorem Admits.split {ok : σ → ω → Prop} {s : σ} {ops : List ω} {o : ω} {ops' : List ω}
    (ha : Admits step ok s (ops ++ o :: ops')) :
    Admits step ok s ops ∧ ok (run step s ops) o := by
  induction ops generalizing s with
  | nil => exact ⟨trivial, ha.1⟩
  | cons x ops ih => exact ⟨⟨ha.1, (ih ha.2).1⟩, (ih ha.2).2⟩

/-- **Invariants of runs.** -/
theorem run_invariant {ok : σ → ω → Prop} {I : σ → Prop}
    (hstep : ∀ s o, ok s o → I s → I (step s o)) {s : σ} {ops : List ω}
    (ha : Admits step ok s ops) (hs : I s) : I (run step s ops) := by
  induction ops generalizing s with
  | nil => exact hs
  | cons o ops ih => exact ih ha.2 (hstep s o ha.1 hs)

/-- Two conditions admit the same runs if they agree where the first one has been met so far. -/
theorem admits_congr {ok ok' : σ → ω → Prop} {I : σ → Prop}
    (hI : ∀ s o, ok s o → I s → I (step s o)) (h : ∀ s o, I s → (ok s o ↔ ok' s o)) {s : σ}
    (hs : I s) (ops : List ω) : Admits step ok s ops ↔ Admits step ok' s ops := by
  induction ops generalizing s with
  | nil => exact Iff.rfl
  | cons o ops ih =>
    constructor
    · intro ha
      exact ⟨(h s o hs).1 ha.1, (ih (hI s o ha.1 hs)).1 ha.2⟩
    · intro ha
      have ho := (h s o hs).2 ha.1
      exact ⟨ho, (ih (hI s o ho hs)).2 ha.2⟩

/-- A run seen through a map that goes along with the steps. -/
theorem run_map {τ : Type} {step' : τ → ω → τ} {f : τ → σ}
    (hf : ∀ t o, f (step' t o) = step (f t) o) (t : τ) (ops : List ω) :
    f (run step' t ops) = run step (f t) ops := by
  induction ops generalizing t with
  | nil => rfl
  | cons o ops ih => rw [run_cons, run_cons, ih, hf]

theorem admits_map {τ : Type} {step' : τ → ω → τ} {f : τ → σ} {ok : σ → ω → Prop}
    (hf : ∀ t o, f (step' t o) = step (f t) o) (t : τ) (ops : List ω) :
    Admits step' (fun t o => ok (f t) o) t ops ↔ Admits step ok (f t) ops := by
  induction ops generalizing t with
  | nil => exact Iff.rfl
  | cons o ops ih => exact and_congr Iff.rfl (by rw [ih, hf])

/-- What an invariant makes of a condition that has been met so far. -/
theorem Admits.of_invariant {ok ok' : σ → ω → Prop} {I : σ → Prop}
    (hI : ∀ s o, ok s o → I s → I (step s o)) (h : ∀ s o, I s → ok s o → ok' s o) {s : σ}
    (hs : I s) {ops : List ω} (ha : Admits step ok s ops) : Admits step ok' s ops := by
  induction ops generalizing s with
  | nil => trivial
  | cons o ops ih => exact ⟨h s o hs ha.1, ih (hI s o ha.1 hs) ha.2⟩

/-- **A property holds throughout a run if and only if every operation is admitted**, where an
invariant of admitted operations implies it and any other operation breaks it at once. -/
theorem throughout_iff {ok : σ → ω → Prop} {I P : σ → Prop}
    (hI : ∀ s o, ok s o → I s → I (step s o)) (hP : ∀ s, I s → P s)
    (hbad : ∀ s o, I s → ¬ ok s o → ¬ P (step s o)) {s : σ} (hs : I s) (ops : List ω) :
    (∀ pre, pre <+: ops → P (run step s pre)) ↔ Admits step ok s ops := by
  induction ops generalizing s with
  | nil =>
    refine ⟨fun _ => trivial, fun _ pre hpre => ?_⟩
    rw [List.prefix_nil.mp hpre]
    exact hP s hs
  | cons o ops ih =>
    constructor
    · intro hall
      have ho : ok s o := by
        by_contra ho
        exact hbad s o hs ho (hall [o] ⟨ops, rfl⟩)
      exact ⟨ho, (ih (hI s o ho hs)).mp fun pre hpre =>
        hall (o :: pre) (List.cons_prefix_cons.mpr ⟨rfl, hpre⟩)⟩
    · rintro ⟨ho, ha⟩ pre hpre
      cases pre with
      | nil => exact hP s hs
      | cons o' pre =>
        obtain ⟨rfl, hrest⟩ := List.cons_prefix_cons.mp hpre
        exact (ih (hI s o' ho hs)).mpr ha pre hrest

/-! ## Tallies -/

variable (step)

/-- The weights of the steps of a run, added up. -/
def tally (w : σ → ω → ℤ) : σ → List ω → ℤ
  | _, [] => 0
  | s, o :: ops => w s o + tally w (step s o) ops

/-- What the selected steps of a run add to `f`. -/
def gain (sel : σ → ω → Bool) (f : σ → ℤ) : σ → List ω → ℤ
  | _, [] => 0
  | s, o :: ops => (if sel s o then f (step s o) - f s else 0) + gain sel f (step s o) ops

variable {step}

/-- **Weights are recorded**: if `g` moves in each step by its weight, it holds the tally. -/
theorem tally_eq {ok : σ → ω → Prop} {I : σ → Prop} {w : σ → ω → ℤ} {g : σ → ℤ}
    (hI : ∀ s o, ok s o → I s → I (step s o))
    (hg : ∀ s o, ok s o → I s → g (step s o) = g s + w s o)
    {s : σ} {ops : List ω} (ha : Admits step ok s ops) (hs : I s) :
    tally step w s ops = g (run step s ops) - g s := by
  induction ops generalizing s with
  | nil => simp [tally]
  | cons o ops ih =>
    rw [tally, run_cons, ih ha.2 (hI s o ha.1 hs), hg s o ha.1 hs]
    omega

theorem gain_eq_tally (sel : σ → ω → Bool) (f : σ → ℤ) (s : σ) (ops : List ω) :
    gain step sel f s ops =
      tally step (fun s o => if sel s o then f (step s o) - f s else 0) s ops := by
  induction ops generalizing s with
  | nil => rfl
  | cons o ops ih => rw [gain, tally, ih]

/-- **Gains are recorded**: if `g` moves with `f` in the selected steps and stays in all others, it
holds what the selected steps add to `f`. -/
theorem gain_eq {ok : σ → ω → Prop} {I : σ → Prop} {sel : σ → ω → Bool} {f g : σ → ℤ}
    (hI : ∀ s o, ok s o → I s → I (step s o))
    (hg : ∀ s o, ok s o → I s →
      g (step s o) = g s + if sel s o then f (step s o) - f s else 0)
    {s : σ} {ops : List ω} (ha : Admits step ok s ops) (hs : I s) :
    gain step sel f s ops = g (run step s ops) - g s := by
  rw [gain_eq_tally]
  exact tally_eq hI hg ha hs

end Transition
