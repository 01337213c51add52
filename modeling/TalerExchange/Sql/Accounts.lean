import TalerExchange.Sql.Totals

/-!
# Accounts

A table whose rows hold a number, read by key with `0` for a missing row: the balance of an
account. The lemmas say what the two writes do to every balance at once, so that a conservation law
is one equation between functions of the key.
-/

namespace Sql

namespace Table

variable {α κ : Type} [Record α κ] [DecidableEq κ]

/-- The number that the row of `k` holds. -/
def valueAt (t : Table α) (f : α → ℤ) (k : κ) : ℤ := (t.lookup k).elim 0 f

@[simp] theorem valueAt_empty (f : α → ℤ) (k : κ) : (empty : Table α).valueAt f k = 0 := rfl

theorem valueAt_of_lookup {t : Table α} {f : α → ℤ} {k : κ} {r : α} (h : t.lookup k = some r) :
    t.valueAt f k = f r := by
  rw [valueAt, h]
  rfl

theorem valueAt_of_mem {t : Table α} {f : α → ℤ} {r : α} (h : r ∈ t.rows) :
    t.valueAt f (Record.key r) = f r :=
  valueAt_of_lookup (lookup_eq_some.mpr ⟨h, rfl⟩)

theorem valueAt_of_not_hasKey {t : Table α} {f : α → ℤ} {k : κ} (h : t.hasKey k = false) :
    t.valueAt f k = 0 := by
  rw [valueAt, lookup_eq_none_iff_hasKey.mpr h]
  rfl

theorem valueAt_insert? {t t' : Table α} {mk : ℕ → α} {hs : ∀ n, Record.serial (mk n) = n}
    (h : t.insert? mk hs = some t') (f : α → ℤ) (k : κ) :
    t'.valueAt f k = t.valueAt f k + if Record.key (mk t.nextSerial) = k then f (mk t.nextSerial)
      else 0 := by
  by_cases hk : Record.key (mk t.nextSerial) = k
  · have hn : t.hasKey k = false := hk ▸ (insert?_eq_some.mp h).1
    rw [if_pos hk, valueAt_of_not_hasKey hn, valueAt, lookup_insert? h, if_pos hk, zero_add]
    rfl
  · rw [if_neg hk, valueAt, lookup_insert? h, if_neg hk, add_zero]
    rfl

/-- An update of one row, seen from every key. -/
theorem valueAt_update {t : Table α} {p : α → Bool} {g : α → α}
    {hk : ∀ r, Record.key (g r) = Record.key r} {hs : ∀ r, Record.serial (g r) = Record.serial r}
    {c : κ} (hp : ∀ r, p r = true ↔ Record.key r = c) (f : α → ℤ) (k : κ) :
    (t.update p g hk hs).valueAt f k = if k = c then t.valueAt (fun r => f (g r)) k
      else t.valueAt f k := by
  unfold valueAt
  rw [lookup_update]
  cases h : t.lookup k with
  | none => simp
  | some r =>
    have hr : Record.key r = k := key_of_lookup h
    simp only [Option.map_some, Option.elim_some, hp, hr]
    split_ifs <;> rfl

/-- An update that leaves the number alone. -/
theorem valueAt_update_same {t : Table α} {p : α → Bool} {g : α → α}
    {hk : ∀ r, Record.key (g r) = Record.key r} {hs : ∀ r, Record.serial (g r) = Record.serial r}
    {f : α → ℤ} (hf : ∀ r, f (g r) = f r) (k : κ) :
    (t.update p g hk hs).valueAt f k = t.valueAt f k := by
  unfold valueAt
  rw [lookup_update]
  cases t.lookup k with
  | none => rfl
  | some r =>
    simp only [Option.map_some, Option.elim_some]
    split_ifs
    · exact hf r
    · rfl

/-- An update that adds `d` to one account. -/
theorem valueAt_update_add {t : Table α} {p : α → Bool} {g : α → α}
    {hk : ∀ r, Record.key (g r) = Record.key r} {hs : ∀ r, Record.serial (g r) = Record.serial r}
    {c : κ} (hp : ∀ r, p r = true ↔ Record.key r = c) (hc : t.hasKey c = true) {f : α → ℤ} {d : ℤ}
    (hd : ∀ r, f (g r) = f r + d) (k : κ) :
    (t.update p g hk hs).valueAt f k = t.valueAt f k + if k = c then d else 0 := by
  rw [valueAt_update hp]
  split_ifs with h
  · subst h
    obtain ⟨r, hr, hrk⟩ := hasKey_iff.mp hc
    have hl : t.lookup k = some r := lookup_eq_some.mpr ⟨hr, hrk⟩
    rw [valueAt_of_lookup hl, valueAt_of_lookup hl]
    exact hd r
  · omega

/-! ## A property of every row -/

omit [DecidableEq κ] in
theorem forall_update {t : Table α} {p : α → Bool} {g : α → α}
    {hk : ∀ r, Record.key (g r) = Record.key r} {hs : ∀ r, Record.serial (g r) = Record.serial r}
    {P : α → Prop} (h : ∀ r ∈ t.rows, P r) (hg : ∀ r ∈ t.rows, p r = true → P r → P (g r)) :
    ∀ r ∈ (t.update p g hk hs).rows, P r := by
  intro r hr
  rw [rows_update] at hr
  obtain ⟨x, hx, rfl⟩ := List.mem_map.mp hr
  split_ifs with hpx
  · exact hg x hx hpx (h x hx)
  · exact h x hx

theorem forall_insert? {t t' : Table α} {mk : ℕ → α} {hs : ∀ n, Record.serial (mk n) = n}
    (hi : t.insert? mk hs = some t') {P : α → Prop} (h : ∀ r ∈ t.rows, P r)
    (hnew : P (mk t.nextSerial)) : ∀ r ∈ t'.rows, P r := by
  intro r hr
  rcases (mem_insert? hi).mp hr with hr | rfl
  · exact h r hr
  · exact hnew

end Table

end Sql
