import TalerExchange.Sql.Table
import Mathlib.Algebra.BigOperators.Ring.List
import Mathlib.Algebra.BigOperators.Group.Finset.Piecewise
import Mathlib.Algebra.Order.BigOperators.Group.Finset
import Mathlib.Algebra.Order.BigOperators.Group.List
import Mathlib.Algebra.Order.Ring.Int

/-!
# Column totals

`SELECT SUM(f) FROM t` as a fold over the rows. A `WHERE` clause is an indicator inside `f`, so
that one family of lemmas serves every query.

* `Table.total_insert?`, `Table.total_update`: what the two writes do to a total;
* **`Table.total_eq_of_pointers`**: the total over a table of pointers is the one over the rows they
  point to;
* **`Table.total_le_of_fibers`**: totals are compared group by group, `GROUP BY` on any key.
-/

namespace Sql

/-- `f` on the rows where `p` holds, `0` elsewhere. -/
def onlyIf {α : Type} (p : α → Prop) [DecidablePred p] (f : α → ℤ) (r : α) : ℤ :=
  if p r then f r else 0

section OnlyIf

variable {α : Type} {p : α → Prop} [DecidablePred p] {f : α → ℤ} {r : α}

theorem onlyIf_pos (h : p r) : onlyIf p f r = f r := if_pos h

theorem onlyIf_neg (h : ¬ p r) : onlyIf p f r = 0 := if_neg h

theorem onlyIf_nonneg (hf : 0 ≤ f r) : 0 ≤ onlyIf p f r := by
  unfold onlyIf
  split_ifs
  · exact hf
  · exact le_rfl

end OnlyIf

namespace Table

variable {α κ : Type} [Record α κ]

/-- The total of `f` over the rows. -/
def total (t : Table α) (f : α → ℤ) : ℤ := (t.rows.map f).sum

@[simp] theorem total_empty (f : α → ℤ) : (empty : Table α).total f = 0 := rfl

theorem total_insert? [DecidableEq κ] {t t' : Table α} {mk : ℕ → α}
    {hs : ∀ n, Record.serial (mk n) = n} (h : t.insert? mk hs = some t') (f : α → ℤ) :
    t'.total f = t.total f + f (mk t.nextSerial) := by
  simp [total, rows_insert? h]

theorem total_congr {t : Table α} {f g : α → ℤ} (h : ∀ r ∈ t.rows, f r = g r) :
    t.total f = t.total g := by
  unfold total
  rw [List.map_congr_left h]

theorem total_onlyIf_congr {t : Table α} {p : α → Prop} [DecidablePred p] {f g : α → ℤ}
    (h : ∀ r ∈ t.rows, p r → f r = g r) : t.total (onlyIf p f) = t.total (onlyIf p g) := by
  refine total_congr fun r hr => ?_
  unfold onlyIf
  split_ifs with hp
  · exact h r hr hp
  · rfl

/-- The same when `f` is read as `g` on the old rows. -/
theorem total_insert?_congr [DecidableEq κ] {t t' : Table α} {mk : ℕ → α}
    {hs : ∀ n, Record.serial (mk n) = n} (h : t.insert? mk hs = some t') {f g : α → ℤ}
    (hfg : ∀ r ∈ t.rows, f r = g r) : t'.total f = t.total g + f (mk t.nextSerial) := by
  rw [total_insert? h, total_congr hfg]

theorem total_update (t : Table α) (p : α → Bool) (g : α → α)
    (hk : ∀ r, Record.key (g r) = Record.key r) (hs : ∀ r, Record.serial (g r) = Record.serial r)
    {f : α → ℤ} (hf : ∀ r, f (g r) = f r) : (t.update p g hk hs).total f = t.total f := by
  unfold total
  rw [rows_update, List.map_map]
  congr 1
  refine List.map_congr_left fun r _ => ?_
  simp only [Function.comp_apply]
  split_ifs
  · exact hf r
  · rfl

theorem total_nonneg {t : Table α} {f : α → ℤ} (h : ∀ r ∈ t.rows, 0 ≤ f r) : 0 ≤ t.total f := by
  refine List.sum_nonneg fun x hx => ?_
  obtain ⟨r, hr, rfl⟩ := List.mem_map.mp hx
  exact h r hr

theorem total_mono {t : Table α} {f g : α → ℤ} (h : ∀ r ∈ t.rows, f r ≤ g r) :
    t.total f ≤ t.total g :=
  List.sum_le_sum h

theorem total_add (t : Table α) (f g : α → ℤ) :
    t.total (fun r => f r + g r) = t.total f + t.total g :=
  List.sum_map_add

theorem total_sub (t : Table α) (f g : α → ℤ) :
    t.total (fun r => f r - g r) = t.total f - t.total g := by
  have h : t.total f = t.total (fun r => f r - g r) + t.total g := by
    rw [← total_add]
    simp
  omega

theorem total_mul (t : Table α) (k : ℤ) (f : α → ℤ) :
    t.total (fun r => k * f r) = k * t.total f :=
  List.sum_map_mul_left ..

theorem total_eq_zero {t : Table α} {f : α → ℤ} (h : ∀ r ∈ t.rows, f r = 0) : t.total f = 0 := by
  rw [total_congr h]
  simp [total]

@[simp] theorem total_onlyIf_zero (t : Table α) (p : α → Prop) [DecidablePred p] :
    t.total (onlyIf p fun _ => 0) = 0 :=
  total_eq_zero fun _ _ => by simp [onlyIf]

theorem total_onlyIf_nonneg {t : Table α} {p : α → Prop} [DecidablePred p] {f : α → ℤ}
    (hf : ∀ r ∈ t.rows, 0 ≤ f r) : 0 ≤ t.total (onlyIf p f) :=
  total_nonneg fun r hr => onlyIf_nonneg (hf r hr)

/-- A total of what is not negative vanishes with its rows. -/
theorem total_onlyIf_eq_zero {t : Table α} {p : α → Prop} [DecidablePred p] {f : α → ℤ}
    (hf : ∀ r ∈ t.rows, 0 ≤ f r) : t.total (onlyIf p f) = 0 ↔ ∀ r ∈ t.rows, p r → f r = 0 := by
  constructor
  · intro h r hr hp
    have hle : onlyIf p f r ≤ t.total (onlyIf p f) := by
      refine List.single_le_sum (fun x hx => ?_) _ (List.mem_map_of_mem hr)
      obtain ⟨r', hr', rfl⟩ := List.mem_map.mp hx
      exact onlyIf_nonneg (hf r' hr')
    rw [onlyIf_pos hp] at hle
    have := hf r hr
    omega
  · intro h
    refine total_eq_zero fun r hr => ?_
    unfold onlyIf
    split_ifs with hp
    · exact h r hr hp
    · rfl

/-- Two columns that differ in one row only. -/
theorem total_eq_add_of_ne {t : Table α} {f g : α → ℤ} {r : α} (hr : r ∈ t.rows)
    (h : ∀ r' ∈ t.rows, r' ≠ r → g r' = f r') : t.total g = t.total f + (g r - f r) := by
  have hn : t.rows.Nodup := List.Nodup.of_map _ t.keys
  unfold total
  obtain ⟨l, l', e⟩ := List.append_of_mem hr
  rw [e] at h hn ⊢
  have hl : ∀ r' ∈ l, g r' = f r' := fun r' hr' => h r' (by simp [hr']) fun h' =>
    (List.nodup_append.mp hn).2.2 r' hr' r (by simp) h'
  have hl' : ∀ r' ∈ l', g r' = f r' := fun r' hr' => h r' (by simp [hr']) fun h' =>
    (List.nodup_cons.mp (List.nodup_append.mp hn).2.1).1 (h' ▸ hr')
  simp only [List.map_append, List.map_cons, List.sum_append, List.sum_cons,
    List.map_congr_left hl, List.map_congr_left hl']
  omega

/-- A row is at most the total if all other rows are not negative. -/
theorem single_le_total {t : Table α} {f : α → ℤ} {r : α} (hr : r ∈ t.rows)
    (h : ∀ r' ∈ t.rows, r' ≠ r → 0 ≤ f r') : f r ≤ t.total f := by
  classical
  have hsplit := total_eq_add_of_ne (f := fun r' => if r' = r then 0 else f r') (g := f) hr
    fun r' _ hne => (if_neg hne).symm
  have hrest : 0 ≤ t.total fun r' => if r' = r then 0 else f r' := by
    refine total_nonneg fun r' hr' => ?_
    split_ifs with e
    · exact le_rfl
    · exact h r' hr' e
  simp only [if_true] at hsplit
  omega

/-- A total over the rows that a `WHERE` clause selects. -/
theorem sum_filter (t : Table α) (p : α → Prop) [DecidablePred p] (f : α → ℤ) :
    ((t.rows.filter fun r => p r).map f).sum = t.total (onlyIf p f) := by
  unfold total
  induction t.rows with
  | nil => rfl
  | cons r l ih =>
    by_cases h : p r
    · simp [h, ih, onlyIf_pos h]
    · simp [h, ih, onlyIf_neg h]

/-- **Totals through pointers**: the rows of `t` that `p` selects point to the rows of `t'` that `q`
selects, one to one. -/
theorem total_eq_of_pointers {β κ' : Type} [Record β κ'] {t : Table α} {t' : Table β} {p : α → Prop}
    [DecidablePred p] {q : β → Prop} [DecidablePred q] {f : α → ℤ} {g : β → ℤ} (s : α → ℕ)
    (hp : ∀ a ∈ t.rows, p a → ∃ b, t'.lookupSerial (s a) = some b ∧ q b ∧ f a = g b)
    (hq : ∀ b ∈ t'.rows, q b → ∃ a ∈ t.rows, p a ∧ s a = Record.serial b)
    (hs : ∀ a ∈ t.rows, ∀ a' ∈ t.rows, p a → p a' → s a = s a' → a = a') :
    t.total (onlyIf p f) = t'.total (onlyIf q g) := by
  have hperm : ((t.rows.filter fun a => p a).map s).Perm
      ((t'.rows.filter fun b => q b).map Record.serial) := by
    refine (List.perm_ext_iff_of_nodup ?_ ?_).mpr fun n => ?_
    · refine List.Nodup.map_on (fun a ha a' ha' e => ?_) (List.Nodup.filter _ (List.Nodup.of_map _ t.keys))
      simp only [List.mem_filter, decide_eq_true_eq] at ha ha'
      exact hs a ha.1 a' ha'.1 ha.2 ha'.2 e
    · have hn : (t'.rows.map Record.serial).Nodup := t'.serials ▸ List.nodup_range'
      exact hn.sublist (List.filter_sublist.map _)
    · simp only [List.mem_map, List.mem_filter, decide_eq_true_eq]
      constructor
      · rintro ⟨a, ⟨ha, hpa⟩, rfl⟩
        obtain ⟨b, hb, hqb, -⟩ := hp a ha hpa
        obtain ⟨hmem, hser⟩ := lookupSerial_eq_some.mp hb
        exact ⟨b, ⟨hmem, hqb⟩, hser⟩
      · rintro ⟨b, ⟨hb, hqb⟩, rfl⟩
        obtain ⟨a, ha, hpa, e⟩ := hq b hb hqb
        exact ⟨a, ⟨ha, hpa⟩, e⟩
  have hsum := (hperm.map fun n => (t'.lookupSerial n).elim 0 g).sum_eq
  rw [List.map_map, List.map_map] at hsum
  rw [← sum_filter, ← sum_filter]
  refine Eq.trans (congrArg List.sum (List.map_congr_left fun a ha => ?_))
    (hsum.trans (congrArg List.sum (List.map_congr_left fun b hb => ?_)))
  · simp only [List.mem_filter, decide_eq_true_eq] at ha
    obtain ⟨b, hb, -, e⟩ := hp a ha.1 ha.2
    simp only [Function.comp_apply, hb, Option.elim_some, e]
  · have hb' : t'.lookupSerial (Record.serial b) = some b :=
      lookupSerial_eq_some.mpr ⟨(List.mem_filter.mp hb).1, rfl⟩
    simp only [Function.comp_apply, hb', Option.elim_some]

/-- **Rows that a list names**: what its elements add up to, if each names a row and stands for what
the row holds, is at least the total over these rows, and more exactly if one with a value comes
again. -/
theorem total_named [DecidableEq κ] {β : Type} {t : Table α} {f : α → ℤ} {k : β → κ} {g : β → ℤ}
    {l : List β} (h : ∀ b ∈ l, ∃ r, t.lookup (k b) = some r ∧ f r = g b) (hg : ∀ b ∈ l, 0 ≤ g b) :
    t.total (onlyIf (fun r => Record.key r ∈ l.map k) f) ≤ (l.map g).sum ∧
      (t.total (onlyIf (fun r => Record.key r ∈ l.map k) f) = (l.map g).sum ↔
        l.Pairwise fun b b' => k b = k b' → g b = 0) := by
  induction l with
  | nil =>
    have h0 : t.total (onlyIf (fun r => Record.key r ∈ ([] : List β).map k) f) = 0 :=
      total_eq_zero fun r _ => onlyIf_neg (by simp)
    rw [h0]
    simp
  | cons b l ih =>
    obtain ⟨hle, hiff⟩ := ih (fun b' hb' => h b' (by simp [hb'])) fun b' hb' => hg b' (by simp [hb'])
    obtain ⟨r, hr, hf⟩ := h b (by simp)
    have hb := hg b (by simp)
    rw [List.pairwise_cons, ← hiff]
    simp only [List.map_cons, List.sum_cons]
    by_cases hk : k b ∈ l.map k
    · -- the row is counted already
      have hsame : t.total (onlyIf (fun r => Record.key r ∈ (b :: l).map k) f) =
          t.total (onlyIf (fun r => Record.key r ∈ l.map k) f) := by
        refine total_congr fun r' _ => ?_
        have hp : Record.key r' ∈ (b :: l).map k ↔ Record.key r' ∈ l.map k := by
          rw [List.map_cons, List.mem_cons]
          exact or_iff_right_of_imp fun e => e ▸ hk
        simp only [onlyIf, hp]
      obtain ⟨b', hb', e⟩ := List.mem_map.mp hk
      rw [hsame]
      refine ⟨by omega, fun heq => ⟨fun _ _ _ => by omega, by omega⟩, fun ⟨hz, heq⟩ => ?_⟩
      have := hz b' hb' e.symm
      omega
    · have hnew : t.total (onlyIf (fun r => Record.key r ∈ (b :: l).map k) f) =
          t.total (onlyIf (fun r => Record.key r ∈ l.map k) f) + g b := by
        have hrk := key_of_lookup hr
        rw [total_eq_add_of_ne (f := onlyIf (fun r => Record.key r ∈ l.map k) f) (mem_of_lookup hr)
          fun r' hr' hne => ?_]
        · rw [onlyIf_pos (by rw [hrk]; exact List.mem_cons_self), onlyIf_neg (by rw [hrk]; exact hk), hf,
            sub_zero]
        · have hne' : Record.key r' ≠ k b := fun e =>
            hne (eq_of_key hr' (mem_of_lookup hr) (e.trans hrk.symm))
          simp only [onlyIf, List.map_cons, List.mem_cons, hne', false_or]
      rw [hnew]
      refine ⟨by omega, fun heq => ⟨fun b' hb' e => ?_, by omega⟩, fun ⟨_, heq⟩ => by omega⟩
      exact absurd (List.mem_map.mpr ⟨b', hb', e.symm⟩) hk

end Table

/-! ## Grouping -/

section Fibers

variable {α β γ : Type} [DecidableEq γ]

/-- A sum is the sum of its groups, over any finite set that has all the group keys. -/
theorem sum_map_eq_sum_fibers (l : List α) (f : α → ℤ) (k : α → γ) (s : Finset γ)
    (hs : ∀ r ∈ l, k r ∈ s) :
    (l.map f).sum = ∑ b ∈ s, (l.map (onlyIf (fun r => k r = b) f)).sum := by
  induction l with
  | nil => simp
  | cons r l ih =>
    have hr : k r ∈ s := hs r (by simp)
    have hl : ∀ r' ∈ l, k r' ∈ s := fun r' hr' => hs r' (by simp [hr'])
    simp only [List.map_cons, List.sum_cons, Finset.sum_add_distrib]
    rw [ih hl]
    congr 1
    simp [onlyIf, hr]

/-- **Totals compared group by group.** -/
theorem sum_map_le_of_fibers (l : List α) (l' : List β) (f : α → ℤ) (g : β → ℤ) (k : α → γ)
    (k' : β → γ)
    (h : ∀ b, (l.map (onlyIf (fun r => k r = b) f)).sum
      ≤ (l'.map (onlyIf (fun r => k' r = b) g)).sum) :
    (l.map f).sum ≤ (l'.map g).sum := by
  have hl : ∀ r ∈ l, k r ∈ (l.map k ++ l'.map k').toFinset := by
    intro r hr
    simp only [List.mem_toFinset, List.mem_append, List.mem_map]
    exact Or.inl ⟨r, hr, rfl⟩
  have hl' : ∀ r ∈ l', k' r ∈ (l.map k ++ l'.map k').toFinset := by
    intro r hr
    simp only [List.mem_toFinset, List.mem_append, List.mem_map]
    exact Or.inr ⟨r, hr, rfl⟩
  rw [sum_map_eq_sum_fibers l f k _ hl, sum_map_eq_sum_fibers l' g k' _ hl']
  exact Finset.sum_le_sum fun b _ => h b

theorem Table.total_le_of_fibers {κ κ' : Type} [Record α κ] [Record β κ'] {t : Table α}
    {t' : Table β} {f : α → ℤ} {g : β → ℤ} (k : α → γ) (k' : β → γ)
    (h : ∀ b, t.total (onlyIf (fun r => k r = b) f) ≤ t'.total (onlyIf (fun r => k' r = b) g)) :
    t.total f ≤ t'.total g :=
  sum_map_le_of_fibers _ _ f g k k' h

/-- Totals that agree group by group. -/
theorem Table.total_eq_of_fibers {κ κ' : Type} [Record α κ] [Record β κ'] {t : Table α}
    {t' : Table β} {f : α → ℤ} {g : β → ℤ} (k : α → γ) (k' : β → γ)
    (h : ∀ b, t.total (onlyIf (fun r => k r = b) f) = t'.total (onlyIf (fun r => k' r = b) g)) :
    t.total f = t'.total g :=
  le_antisymm (total_le_of_fibers k k' fun b => (h b).le)
    (total_le_of_fibers k' k fun b => (h b).ge)

end Fibers

end Sql
