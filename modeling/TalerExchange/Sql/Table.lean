import Mathlib.Data.List.Nodup
import Mathlib.Data.List.Range

/-!
# Keyed tables

A relational table with an identity column and one unique key. Both constraints are fields of
`Table`, so a table that breaks them cannot be built: the identity column numbers the rows in
order of insertion and no two rows share a key.

* `Record`: the key and the identity column of a row type;
* `Table.insert?`: `INSERT … ON CONFLICT DO NOTHING`, `none` when the key is taken;
* `Table.update`: `UPDATE … WHERE`, keys and identities stay;
* `Table.lookup`, `Table.lookupSerial`: the row of a key or of an identity;
* **`lookup_eq_some`**, **`lookupSerial_eq_some`**: these rows are unique.
-/

namespace Sql

/-- The unique key and the identity column of the rows of a table. -/
class Record (α : Type) (κ : outParam Type) where
  key : α → κ
  serial : α → ℕ

/-- A table: rows in order of insertion, numbered from `1`, with distinct keys. -/
structure Table (α : Type) {κ : Type} [Record α κ] where
  rows : List α
  serials : rows.map Record.serial = List.range' 1 rows.length
  keys : (rows.map Record.key).Nodup

namespace Table

variable {α κ : Type} [Record α κ]

/-- The table without rows. -/
def empty : Table α where
  rows := []
  serials := rfl
  keys := List.nodup_nil

/-- The table with the given rows, if there is one. -/
def ofRows [DecidableEq κ] (rows : List α) : Table α :=
  if h : rows.map Record.serial = List.range' 1 rows.length ∧ (rows.map Record.key).Nodup then
    ⟨rows, h.1, h.2⟩
  else empty

/-- A table is its rows. -/
theorem ext_rows {t t' : Table α} (h : t.rows = t'.rows) : t = t' := by
  cases t
  cases t'
  cases h
  rfl

@[simp] theorem rows_empty : (empty : Table α).rows = [] := rfl

/-- The identity the next row gets. -/
def nextSerial (t : Table α) : ℕ := t.rows.length + 1

theorem eq_of_key {t : Table α} {r r' : α} (hr : r ∈ t.rows) (hr' : r' ∈ t.rows)
    (h : Record.key r = Record.key r') : r = r' :=
  List.inj_on_of_nodup_map t.keys hr hr' h

section Key

variable [DecidableEq κ]

/-- Some row has key `k`. -/
def hasKey (t : Table α) (k : κ) : Bool := t.rows.any fun r => Record.key r = k

theorem hasKey_iff {t : Table α} {k : κ} : t.hasKey k = true ↔ ∃ r ∈ t.rows, Record.key r = k := by
  simp [hasKey]

theorem hasKey_eq_false {t : Table α} {k : κ} :
    t.hasKey k = false ↔ ∀ r ∈ t.rows, Record.key r ≠ k := by
  simp [hasKey]

/-- At most one row has key `k`. -/
theorem length_filter_key_le (t : Table α) (k : κ) :
    (t.rows.filter fun r => Record.key r = k).length ≤ 1 := by
  have h := List.nodup_iff_count_le_one.mp t.keys k
  rw [List.count, List.countP_map, List.countP_eq_length_filter] at h
  exact h

/-- The row with key `k`. -/
def lookup (t : Table α) (k : κ) : Option α := t.rows.find? fun r => Record.key r = k

theorem mem_of_lookup {t : Table α} {k : κ} {r : α} (h : t.lookup k = some r) : r ∈ t.rows :=
  List.mem_of_find?_eq_some h

theorem key_of_lookup {t : Table α} {k : κ} {r : α} (h : t.lookup k = some r) :
    Record.key r = k := by
  simpa using List.find?_some h

/-- **The row of a key is unique.** -/
theorem lookup_eq_some {t : Table α} {k : κ} {r : α} :
    t.lookup k = some r ↔ r ∈ t.rows ∧ Record.key r = k := by
  refine ⟨fun h => ⟨mem_of_lookup h, key_of_lookup h⟩, fun ⟨hr, hk⟩ => ?_⟩
  cases h : t.lookup k with
  | none => exact absurd hk (by simpa using List.find?_eq_none.mp h r hr)
  | some r' => rw [eq_of_key (mem_of_lookup h) hr ((key_of_lookup h).trans hk.symm)]

theorem lookup_eq_none {t : Table α} {k : κ} :
    t.lookup k = none ↔ ∀ r ∈ t.rows, Record.key r ≠ k := by
  simp [lookup]

theorem lookup_eq_none_iff_hasKey {t : Table α} {k : κ} : t.lookup k = none ↔ t.hasKey k = false :=
  lookup_eq_none.trans hasKey_eq_false.symm

theorem hasKey_of_lookup {t : Table α} {k : κ} {r : α} (h : t.lookup k = some r) :
    t.hasKey k = true :=
  hasKey_iff.mpr ⟨r, mem_of_lookup h, key_of_lookup h⟩

theorem exists_lookup {t : Table α} {k : κ} (h : t.hasKey k = true) : ∃ r, t.lookup k = some r := by
  obtain ⟨r, hr, hk⟩ := hasKey_iff.mp h
  exact ⟨r, lookup_eq_some.mpr ⟨hr, hk⟩⟩

@[simp] theorem lookup_empty (k : κ) : (empty : Table α).lookup k = none := rfl

/-- `INSERT … ON CONFLICT DO NOTHING`: `mk` gives the row for the identity it is assigned. -/
def insert? (t : Table α) (mk : ℕ → α)
    (hs : ∀ n, Record.serial (mk n) = n := by intro; rfl) : Option (Table α) :=
  if h : t.hasKey (Record.key (mk t.nextSerial)) = true then none
  else some
    { rows := t.rows ++ [mk t.nextSerial]
      serials := by
        rw [List.map_append, t.serials, List.length_append, List.map_singleton, hs,
          List.length_singleton, List.range'_1_concat, nextSerial, Nat.add_comm]
      keys := by
        rw [List.map_append, List.map_singleton]
        refine List.nodup_append.mpr ⟨t.keys, List.nodup_singleton _, fun a ha b hb e => ?_⟩
        obtain ⟨r, hr, rfl⟩ := List.mem_map.mp ha
        rw [List.mem_singleton.mp hb] at e
        exact h (hasKey_iff.mpr ⟨r, hr, e⟩) }

theorem insert?_eq_none {t : Table α} {mk : ℕ → α} {hs : ∀ n, Record.serial (mk n) = n} :
    t.insert? mk hs = none ↔ t.hasKey (Record.key (mk t.nextSerial)) = true := by
  unfold insert?
  split_ifs with h <;> simp [h]

theorem insert?_eq_some {t t' : Table α} {mk : ℕ → α} {hs : ∀ n, Record.serial (mk n) = n} :
    t.insert? mk hs = some t' ↔ t.hasKey (Record.key (mk t.nextSerial)) = false ∧
      t'.rows = t.rows ++ [mk t.nextSerial] := by
  unfold insert?
  split_ifs with h
  · simp [h]
  · rw [Option.some.injEq]
    constructor
    · rintro rfl
      exact ⟨by simpa using h, rfl⟩
    · rintro ⟨-, e⟩
      cases t'
      simp only at e
      subst e
      rfl

theorem rows_insert? {t t' : Table α} {mk : ℕ → α} {hs : ∀ n, Record.serial (mk n) = n}
    (h : t.insert? mk hs = some t') : t'.rows = t.rows ++ [mk t.nextSerial] :=
  (insert?_eq_some.mp h).2

theorem mem_insert? {t t' : Table α} {mk : ℕ → α} {hs : ∀ n, Record.serial (mk n) = n}
    (h : t.insert? mk hs = some t') {r : α} :
    r ∈ t'.rows ↔ r ∈ t.rows ∨ r = mk t.nextSerial := by
  rw [rows_insert? h, List.mem_append, List.mem_singleton]

theorem lookup_insert?_self {t t' : Table α} {mk : ℕ → α} {hs : ∀ n, Record.serial (mk n) = n}
    (h : t.insert? mk hs = some t') :
    t'.lookup (Record.key (mk t.nextSerial)) = some (mk t.nextSerial) :=
  lookup_eq_some.mpr ⟨by rw [rows_insert? h]; simp, rfl⟩

theorem lookup_insert? {t t' : Table α} {mk : ℕ → α} {hs : ∀ n, Record.serial (mk n) = n}
    (h : t.insert? mk hs = some t') (k : κ) :
    t'.lookup k = if Record.key (mk t.nextSerial) = k then some (mk t.nextSerial)
      else t.lookup k := by
  split_ifs with e
  · rw [← e, lookup_insert?_self h]
  · unfold lookup
    rw [rows_insert? h, List.find?_append]
    simp [e]

theorem hasKey_insert? {t t' : Table α} {mk : ℕ → α} {hs : ∀ n, Record.serial (mk n) = n}
    (h : t.insert? mk hs = some t') (k : κ) :
    t'.hasKey k = (t.hasKey k || decide (Record.key (mk t.nextSerial) = k)) := by
  simp [hasKey, rows_insert? h]

theorem lookup_insert?_ne {t t' : Table α} {mk : ℕ → α} {hs : ∀ n, Record.serial (mk n) = n}
    (h : t.insert? mk hs = some t') {k : κ} (hk : k ≠ Record.key (mk t.nextSerial)) :
    t'.lookup k = t.lookup k := by
  rw [lookup_insert? h, if_neg hk.symm]

theorem hasKey_insert?_ne {t t' : Table α} {mk : ℕ → α} {hs : ∀ n, Record.serial (mk n) = n}
    (h : t.insert? mk hs = some t') {k : κ} (hk : k ≠ Record.key (mk t.nextSerial)) :
    t'.hasKey k = t.hasKey k := by
  rw [hasKey_insert? h, decide_eq_false hk.symm, Bool.or_false]

theorem hasKey_insert?_of_hasKey {t t' : Table α} {mk : ℕ → α}
    {hs : ∀ n, Record.serial (mk n) = n} (h : t.insert? mk hs = some t') {k : κ}
    (hk : t.hasKey k = true) : t'.hasKey k = true := by
  rw [hasKey_insert? h, hk, Bool.true_or]

theorem hasKey_insert?_self {t t' : Table α} {mk : ℕ → α} {hs : ∀ n, Record.serial (mk n) = n}
    (h : t.insert? mk hs = some t') : t'.hasKey (Record.key (mk t.nextSerial)) = true := by
  simp [hasKey_insert? h]

/-- A key found before an insertion is found after it. -/
theorem lookup_insert?_of_some {t t' : Table α} {mk : ℕ → α} {hs : ∀ n, Record.serial (mk n) = n}
    (h : t.insert? mk hs = some t') {k : κ} {r : α} (hr : t.lookup k = some r) :
    t'.lookup k = some r :=
  lookup_eq_some.mpr ⟨by rw [rows_insert? h]; exact List.mem_append_left _ (mem_of_lookup hr),
    key_of_lookup hr⟩

end Key

/-! ## Updates -/

/-- `UPDATE … WHERE p`: keys and identities stay. -/
def update (t : Table α) (p : α → Bool) (f : α → α)
    (hk : ∀ r, Record.key (f r) = Record.key r := by intro; rfl)
    (hs : ∀ r, Record.serial (f r) = Record.serial r := by intro; rfl) : Table α where
  rows := t.rows.map fun r => if p r then f r else r
  serials := by
    rw [List.map_map, List.length_map, ← t.serials]
    refine List.map_congr_left fun r _ => ?_
    simp only [Function.comp_apply]
    split_ifs
    · exact hs r
    · rfl
  keys := by
    rw [List.map_map]
    convert t.keys using 1
    refine List.map_congr_left fun r _ => ?_
    simp only [Function.comp_apply]
    split_ifs
    · exact hk r
    · rfl

theorem rows_update (t : Table α) (p : α → Bool) (f : α → α)
    (hk : ∀ r, Record.key (f r) = Record.key r) (hs : ∀ r, Record.serial (f r) = Record.serial r) :
    (t.update p f hk hs).rows = t.rows.map fun r => if p r then f r else r := rfl

theorem nextSerial_update (t : Table α) (p : α → Bool) (f : α → α)
    (hk : ∀ r, Record.key (f r) = Record.key r) (hs : ∀ r, Record.serial (f r) = Record.serial r) :
    (t.update p f hk hs).nextSerial = t.nextSerial := by
  simp [nextSerial, rows_update]

/-- An update that leaves every row it selects as it is. -/
theorem update_eq_self (t : Table α) {p : α → Bool} {f : α → α}
    (hk : ∀ r, Record.key (f r) = Record.key r) (hs : ∀ r, Record.serial (f r) = Record.serial r)
    (h : ∀ r ∈ t.rows, p r = true → f r = r) : t.update p f hk hs = t := by
  refine ext_rows ((List.map_congr_left fun r hr => ?_).trans (List.map_id _))
  split_ifs with hp
  · exact h r hr hp
  · rfl

theorem lookup_update [DecidableEq κ] (t : Table α) (p : α → Bool) (f : α → α)
    (hk : ∀ r, Record.key (f r) = Record.key r) (hs : ∀ r, Record.serial (f r) = Record.serial r)
    (k : κ) :
    (t.update p f hk hs).lookup k = (t.lookup k).map fun r => if p r then f r else r := by
  unfold lookup
  rw [rows_update, List.find?_map]
  congr 2
  funext r
  simp only [Function.comp_apply]
  split_ifs
  · rw [hk]
  · rfl

theorem hasKey_update [DecidableEq κ] (t : Table α) (p : α → Bool) (f : α → α)
    (hk : ∀ r, Record.key (f r) = Record.key r) (hs : ∀ r, Record.serial (f r) = Record.serial r)
    (k : κ) : (t.update p f hk hs).hasKey k = t.hasKey k := by
  unfold hasKey
  rw [rows_update, List.any_map]
  congr 1
  funext r
  simp only [Function.comp_apply]
  split_ifs
  · rw [hk]
  · rfl

/-- The rows of a selection whose `WHERE` clause an update does not touch. -/
theorem filter_update (t : Table α) (p : α → Bool) {f : α → α} {q : α → Bool}
    (hk : ∀ r, Record.key (f r) = Record.key r) (hs : ∀ r, Record.serial (f r) = Record.serial r)
    (hq : ∀ r, q (f r) = q r) :
    (t.update p f hk hs).rows.filter q = (t.rows.filter q).map fun r => if p r then f r else r := by
  have hq' : (q ∘ fun r => if p r then f r else r) = q := by
    funext r
    simp only [Function.comp_apply]
    split_ifs
    · exact hq r
    · rfl
  rw [rows_update, List.filter_map, hq']

/-- A selection whose `WHERE` clause and columns an update does not touch. -/
theorem select_update {β : Type} (t : Table α) (p : α → Bool) {f : α → α} {q : α → Bool} {g : α → β}
    (hk : ∀ r, Record.key (f r) = Record.key r) (hs : ∀ r, Record.serial (f r) = Record.serial r)
    (hq : ∀ r, q (f r) = q r) (hg : ∀ r, g (f r) = g r) :
    ((t.update p f hk hs).rows.filter q).map g = (t.rows.filter q).map g := by
  rw [filter_update t p hk hs hq, List.map_map]
  refine List.map_congr_left fun r _ => ?_
  simp only [Function.comp_apply]
  split_ifs
  · exact hg r
  · rfl

theorem select_insert? [DecidableEq κ] {β : Type} {t t' : Table α} {mk : ℕ → α}
    {hs : ∀ n, Record.serial (mk n) = n} (h : t.insert? mk hs = some t') (q : α → Bool) (g : α → β) :
    (t'.rows.filter q).map g =
      (t.rows.filter q).map g ++ if q (mk t.nextSerial) then [g (mk t.nextSerial)] else [] := by
  rw [rows_insert? h, List.filter_append, List.map_append, List.filter_singleton]
  cases q (mk t.nextSerial) <;> rfl

/-! ## Identities -/

theorem serial_pos {t : Table α} {r : α} (hr : r ∈ t.rows) : 0 < Record.serial r := by
  have h : Record.serial r ∈ t.rows.map Record.serial := List.mem_map_of_mem hr
  rw [t.serials, List.mem_range'_1] at h
  omega

theorem serial_le {t : Table α} {r : α} (hr : r ∈ t.rows) : Record.serial r < t.nextSerial := by
  have h : Record.serial r ∈ t.rows.map Record.serial := List.mem_map_of_mem hr
  rw [t.serials, List.mem_range'_1] at h
  unfold nextSerial
  omega

/-- A table whose key is the identity takes every row. -/
theorem exists_insert?_of_serial {β : Type} [Record β ℕ]
    (hk : ∀ r : β, Record.key r = Record.serial r) (t : Table β) (mk : ℕ → β)
    (hs : ∀ n, Record.serial (mk n) = n) : ∃ t', t.insert? mk hs = some t' := by
  rw [← Option.ne_none_iff_exists', ne_eq, insert?_eq_none, hasKey_iff]
  rintro ⟨r, hr, he⟩
  rw [hk, hk, hs] at he
  exact absurd (serial_le hr) (by omega)

theorem eq_of_serial {t : Table α} {r r' : α} (hr : r ∈ t.rows) (hr' : r' ∈ t.rows)
    (h : Record.serial r = Record.serial r') : r = r' :=
  List.inj_on_of_nodup_map (t.serials ▸ List.nodup_range') hr hr' h

/-- The row with identity `n`. -/
def lookupSerial (t : Table α) (n : ℕ) : Option α := t.rows.find? fun r => Record.serial r = n

/-- **The row of an identity is unique.** -/
theorem lookupSerial_eq_some {t : Table α} {n : ℕ} {r : α} :
    t.lookupSerial n = some r ↔ r ∈ t.rows ∧ Record.serial r = n := by
  constructor
  · intro h
    exact ⟨List.mem_of_find?_eq_some h, by simpa using List.find?_some h⟩
  · rintro ⟨hr, hn⟩
    cases h : t.lookupSerial n with
    | none => exact absurd hn (by simpa using List.find?_eq_none.mp h r hr)
    | some r' =>
      have hr' : r' ∈ t.rows := List.mem_of_find?_eq_some h
      have hn' : Record.serial r' = n := by simpa using List.find?_some h
      rw [eq_of_serial hr' hr (hn'.trans hn.symm)]

theorem lookupSerial_insert?_of_some [DecidableEq κ] {t t' : Table α} {mk : ℕ → α}
    {hs : ∀ n, Record.serial (mk n) = n} (h : t.insert? mk hs = some t') {n : ℕ} {r : α}
    (hr : t.lookupSerial n = some r) : t'.lookupSerial n = some r := by
  obtain ⟨hm, hn⟩ := lookupSerial_eq_some.mp hr
  exact lookupSerial_eq_some.mpr ⟨by rw [rows_insert? h]; exact List.mem_append_left _ hm, hn⟩

theorem lookupSerial_insert?_self [DecidableEq κ] {t t' : Table α} {mk : ℕ → α}
    {hs : ∀ n, Record.serial (mk n) = n} (h : t.insert? mk hs = some t') :
    t'.lookupSerial t.nextSerial = some (mk t.nextSerial) :=
  lookupSerial_eq_some.mpr ⟨by rw [rows_insert? h]; simp, hs _⟩

theorem lookupSerial_nextSerial (t : Table α) : t.lookupSerial t.nextSerial = none := by
  cases h : t.lookupSerial t.nextSerial with
  | none => rfl
  | some r =>
    obtain ⟨hr, hn⟩ := lookupSerial_eq_some.mp h
    exact absurd (serial_le hr) (by omega)

theorem lookupSerial_insert? [DecidableEq κ] {t t' : Table α} {mk : ℕ → α}
    {hs : ∀ n, Record.serial (mk n) = n} (h : t.insert? mk hs = some t') (n : ℕ) :
    t'.lookupSerial n = if n = t.nextSerial then some (mk n) else t.lookupSerial n := by
  split_ifs with hn
  · rw [hn]
    exact lookupSerial_insert?_self h
  · unfold lookupSerial
    rw [rows_insert? h, List.find?_append, List.find?_singleton, if_neg, Option.or_none]
    rw [hs, decide_eq_true_eq]
    exact fun e => hn e.symm

/-- A column by identity, after an insert. -/
theorem column_insert? [DecidableEq κ] {β : Type} {t t' : Table α} {mk : ℕ → α}
    {hs : ∀ n, Record.serial (mk n) = n} (h : t.insert? mk hs = some t') {f : α → β} {b : β}
    (hf : ∀ n, f (mk n) = b) (n : ℕ) :
    (t'.lookupSerial n).map f =
      if n = t.nextSerial then some b else (t.lookupSerial n).map f := by
  rw [lookupSerial_insert? h]
  split_ifs
  · exact congrArg some (hf n)
  · rfl

theorem lookupSerial_update (t : Table α) (p : α → Bool) (f : α → α)
    (hk : ∀ r, Record.key (f r) = Record.key r) (hs : ∀ r, Record.serial (f r) = Record.serial r)
    (n : ℕ) :
    (t.update p f hk hs).lookupSerial n =
      (t.lookupSerial n).map fun r => if p r then f r else r := by
  unfold lookupSerial
  rw [rows_update, List.find?_map]
  congr 2
  funext r
  simp only [Function.comp_apply]
  split_ifs
  · rw [hs]
  · rfl

end Table

end Sql
