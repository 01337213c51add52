import Mathlib.Data.Option.Basic

/-!
# Connections

A connection to a database over states `σ`. Inside a transaction the statements change what the
connection sees; outside of one each statement is a transaction of its own. A client that commits
early is then still talking to the server, so the states that were committed are kept in order.

* `Session.exec`, `Session.apply`: a statement that may fail, and one that may not;
* `Session.commit`: outside of a transaction it does nothing;
* `Session.last`: the database after everything that was committed;
* `Session.All`: a property that every statement keeps, of what is seen and what was committed.
-/

namespace Sql

/-- A connection: what it sees, whether it is in a transaction, and the states it has committed. -/
structure Session (σ : Type) where
  view : σ
  isOpen : Bool
  commits : List σ

namespace Session

variable {σ : Type}

/-- `START TRANSACTION`. -/
def start (s : σ) : Session σ := ⟨s, true, []⟩

/-- A statement. -/
def apply (c : Session σ) (f : σ → σ) : Session σ where
  view := f c.view
  isOpen := c.isOpen
  commits := if c.isOpen then c.commits else c.commits ++ [f c.view]

/-- A statement that may fail. -/
def exec (c : Session σ) (f : σ → Option σ) : Option (Session σ) :=
  (f c.view).map fun v => c.apply fun _ => v

/-- `COMMIT`. -/
def commit (c : Session σ) : Session σ where
  view := c.view
  isOpen := false
  commits := if c.isOpen then c.commits ++ [c.view] else c.commits

/-- The last of the states in a list of commits. -/
def last (s : σ) (commits : List σ) : σ := commits.getLast?.getD s

@[simp] theorem view_apply (c : Session σ) (f : σ → σ) : (c.apply f).view = f c.view := rfl

@[simp] theorem isOpen_apply (c : Session σ) (f : σ → σ) : (c.apply f).isOpen = c.isOpen := rfl

theorem commits_apply {c : Session σ} (h : c.isOpen = true) (f : σ → σ) :
    (c.apply f).commits = c.commits := if_pos h

theorem commits_commit {c : Session σ} (h : c.isOpen = true) :
    c.commit.commits = c.commits ++ [c.view] := if_pos h

@[simp] theorem commit_commit (c : Session σ) : c.commit.commit = c.commit := rfl

theorem exec_of_some {c : Session σ} {f : σ → Option σ} {v : σ} (h : f c.view = some v) :
    c.exec f = some (c.apply fun _ => v) := by
  unfold exec
  rw [h]
  rfl

/-- What is seen and what was committed has the property. -/
def All (I : σ → Prop) (c : Session σ) : Prop := I c.view ∧ ∀ t ∈ c.commits, I t

section All

variable {I : σ → Prop} {c c' : Session σ}

theorem all_start {s : σ} (h : I s) : (start s).All I := ⟨h, fun _ ht => nomatch ht⟩

theorem All.apply (h : c.All I) {f : σ → σ} (hf : I c.view → I (f c.view)) : (c.apply f).All I := by
  have hv := hf h.1
  refine ⟨hv, fun t ht => ?_⟩
  unfold Session.apply at ht
  simp only at ht
  split at ht
  · exact h.2 t ht
  · rcases List.mem_append.mp ht with ht | ht
    · exact h.2 t ht
    · rw [List.mem_singleton.mp ht]
      exact hv

theorem All.exec (h : c.All I) {f : σ → Option σ} (hf : ∀ v, I c.view → f c.view = some v → I v)
    (he : c.exec f = some c') : c'.All I := by
  unfold Session.exec at he
  obtain ⟨v, hv, rfl⟩ := Option.map_eq_some_iff.mp he
  exact h.apply fun hi => hf v hi hv

theorem All.commit (h : c.All I) : c.commit.All I := by
  refine ⟨h.1, fun t ht => ?_⟩
  unfold Session.commit at ht
  simp only at ht
  split at ht
  · rcases List.mem_append.mp ht with ht | ht
    · exact h.2 t ht
    · rw [List.mem_singleton.mp ht]
      exact h.1
  · exact h.2 t ht

/-- The property of all commits holds of the last. -/
theorem last_of_forall {s : σ} {l : List σ} (hs : I s) (hl : ∀ t ∈ l, I t) : I (last s l) := by
  unfold last
  cases h : l.getLast? with
  | none => exact hs
  | some t => exact hl t (List.mem_of_getLast? h)

end All

@[simp] theorem last_singleton (s t : σ) : last s [t] = t := rfl

end Session

end Sql
