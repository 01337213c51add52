import TalerExchange.Machine.Clock
import TalerExchange.Secmod.Keys

/-!
# Creating keys

The loop of `update_keys` in the modules for RSA and for EdDSA, with times that saturate and for all
durations. Every key is stored in a file that is named by its anchor in seconds.

* `KeyConfig`: the durations; `AnchoredKeys`: the anchors of the keys, in their order;
* `createLoop`: the loop; `CreatesFresh`: it ends, and every key has a file of its own;
* `createLoop_spaced`: it does if keys are at least a second apart;
* **`createsFresh_iff`**: when it does; a configuration with which it never ends.
-/

namespace TalerExchange

/-- `duration_withdraw` or `duration`, `overlap_duration` and `lookahead_sign`. -/
structure KeyConfig where
  duration : ℕ
  overlapDuration : ℕ
  lookaheadSign : ℕ
  overlap_lt : overlapDuration < duration
  duration_le : duration ≤ forever
  lookahead_lt : lookaheadSign < forever

/-- `parse_denomination_cfg`, as far as it reads durations; the others are in words, and `forever` is
not used for `lookahead_sign`. -/
def parseDenominationCfg (overlapDuration : ℕ) (lookaheadSign : Fin forever)
    (durationWithdraw : Fin (2 ^ 64)) : Option KeyConfig :=
  if h : durationWithdraw ≤ overlapDuration then none
  else some ⟨durationWithdraw, overlapDuration, lookaheadSign, not_le.mp h,
    Nat.le_pred_of_lt durationWithdraw.isLt, lookaheadSign.isLt⟩

/-- `GNUNET_TIME_absolute_to_timestamp`. -/
def toTimestamp (t : ℕ) : ℕ := if t = forever then forever else t - t % oneSecond

/-- The anchors of the keys: whole seconds, in their order. -/
structure AnchoredKeys where
  anchors : List ℕ
  whole : ∀ a ∈ anchors, oneSecond ∣ a
  sorted : anchors.Pairwise (· ≤ ·)

/-- The time that the clock shows; it comes. -/
abbrev ClockTime := { t : ℕ // t < forever }

namespace KeyConfig

variable (cfg : KeyConfig) (now : ClockTime)

/-- How far apart the anchors of successive keys are to be. -/
def spacing : ℕ := relativeSubtract cfg.duration cfg.overlapDuration

/-- The anchor that `create_key` chooses. -/
def createAnchor : Option ℕ → ℕ
  | none => toTimestamp now
  | some a =>
    let abs := absoluteAdd a cfg.spacing
    if toTimestamp now < abs then toTimestamp abs else toTimestamp now

/-- The condition of the loop: there is no key, or it is time for a successor of the last one. -/
def wanting : Option ℕ → Bool
  | none => true
  | some a =>
    absoluteSubtract (absoluteSubtract (absoluteAdd a cfg.duration) cfg.lookaheadSign)
      cfg.overlapDuration < now.val

/-- **The loop of `update_keys`** that creates keys, at most `n` of them. -/
def createLoop : ℕ → List ℕ → Option (List ℕ)
  | 0, keys => if cfg.wanting now keys.getLast? then none else some keys
  | n + 1, keys =>
    if cfg.wanting now keys.getLast? then
      createLoop n (keys ++ [cfg.createAnchor now keys.getLast?])
    else some keys

end KeyConfig

/-- The name of the file of a key. -/
def keyFile (anchor : ℕ) : ℕ := anchor / oneSecond

/-- **The loop ends**, and no new key has the file of another key. -/
def CreatesFresh (cfg : KeyConfig) (now : ClockTime) (keys : List ℕ) : Prop :=
  ∃ n new, cfg.createLoop now n keys = some (keys ++ new) ∧ (new.map keyFile).Nodup ∧
    ∀ a ∈ new, ∀ k ∈ keys, keyFile a ≠ keyFile k

/-- When it does: keys are at least a second apart, or the loop ends at once, or after a first key
with an anchor of its own. -/
def CreationOk (cfg : KeyConfig) (now : ClockTime) (keys : List ℕ) : Prop :=
  oneSecond ≤ cfg.spacing ∨ cfg.wanting now keys.getLast? = false ∨
    (keys.getLast? ≠ some (cfg.createAnchor now keys.getLast?) ∧
      cfg.wanting now (some (cfg.createAnchor now keys.getLast?)) = false)

/-! ## Timestamps -/

section Timestamp

variable {t : ℕ}

theorem toTimestamp_of_lt (h : t < forever) : toTimestamp t = t - t % oneSecond := if_neg h.ne

theorem dvd_toTimestamp (h : t < forever) : oneSecond ∣ toTimestamp t := by
  rw [toTimestamp_of_lt h]
  exact Nat.dvd_sub_mod t

/-- A timestamp is not before the whole seconds up to the time. -/
theorem le_toTimestamp (h : t < forever) {a : ℕ} (ha : oneSecond ∣ a) (hle : a ≤ t) :
    a ≤ toTimestamp t := by
  rw [toTimestamp_of_lt h]
  obtain ⟨k, rfl⟩ := ha
  unfold oneSecond at hle ⊢
  omega

theorem keyFile_lt {a b : ℕ} (ha : oneSecond ∣ a) (hb : oneSecond ∣ b) (h : a < b) :
    keyFile a < keyFile b := by
  obtain ⟨k, rfl⟩ := ha
  obtain ⟨l, rfl⟩ := hb
  unfold keyFile oneSecond at *
  omega

end Timestamp

/-! ## One key -/

section Step

variable {cfg : KeyConfig} {now : ClockTime} {a : ℕ}

/-- Where a successor is wanting, no time saturates. -/
theorem KeyConfig.lt_of_wanting (h : cfg.wanting now (some a) = true) :
    a + cfg.duration < forever := by
  by_contra hge
  have hadd : absoluteAdd a cfg.duration = forever := by
    by_contra hne
    have hlt : absoluteAdd a cfg.duration < forever := by
      unfold absoluteAdd at hne ⊢
      unfold forever at *
      split_ifs at hne ⊢ <;> omega
    exact hge (absoluteAdd_lt hlt).2
  have hov : cfg.overlapDuration < forever := cfg.overlap_lt.trans_le cfg.duration_le
  simp only [wanting, hadd, absoluteSubtract_forever cfg.lookahead_lt, absoluteSubtract_forever hov,
    decide_eq_true_eq] at h
  exact absurd (h.trans now.2) (lt_irrefl _)

theorem KeyConfig.spacing_eq (h : cfg.wanting now (some a) = true) :
    cfg.spacing = cfg.duration - cfg.overlapDuration ∧ 0 < cfg.spacing ∧
      a + cfg.spacing < forever := by
  have hlt := cfg.lt_of_wanting h
  have hov := cfg.overlap_lt
  have heq : cfg.spacing = cfg.duration - cfg.overlapDuration := relativeSubtract_eq (by omega)
  rw [heq]
  exact ⟨rfl, by omega, by omega⟩

/-- The anchor that follows another one, where a successor is wanting. -/
theorem KeyConfig.createAnchor_eq (h : cfg.wanting now (some a) = true) :
    cfg.createAnchor now (some a) =
      if toTimestamp now < a + cfg.spacing then toTimestamp (a + cfg.spacing)
      else toTimestamp now := by
  rw [createAnchor, absoluteAdd_eq (cfg.spacing_eq h).2.2]

theorem KeyConfig.dvd_createAnchor {tail : Option ℕ} (h : cfg.wanting now tail = true) :
    oneSecond ∣ cfg.createAnchor now tail := by
  cases tail with
  | none => exact dvd_toTimestamp now.2
  | some a =>
    rw [cfg.createAnchor_eq h]
    split_ifs
    · exact dvd_toTimestamp (cfg.spacing_eq h).2.2
    · exact dvd_toTimestamp now.2

/-- Anchors do not go back. -/
theorem KeyConfig.le_createAnchor (ha : oneSecond ∣ a) (h : cfg.wanting now (some a) = true) :
    a ≤ cfg.createAnchor now (some a) := by
  rw [cfg.createAnchor_eq h]
  split_ifs with hlt
  · exact le_toTimestamp (cfg.spacing_eq h).2.2 ha (Nat.le_add_right _ _)
  · omega

/-- **A successor begins a second later**, if keys are that far apart. -/
theorem KeyConfig.lt_createAnchor (hs : oneSecond ≤ cfg.spacing) (ha : oneSecond ∣ a)
    (h : cfg.wanting now (some a) = true) : a < cfg.createAnchor now (some a) := by
  have hpos : 0 < oneSecond := by decide
  rw [cfg.createAnchor_eq h]
  split_ifs with hlt
  · have hle : a + oneSecond ≤ toTimestamp (a + cfg.spacing) :=
      le_toTimestamp (cfg.spacing_eq h).2.2 (Nat.dvd_add ha dvd_rfl) (by omega)
    omega
  · omega

/-- **Otherwise a key at the present second is its own successor.** -/
theorem KeyConfig.createAnchor_of_lt (hs : cfg.spacing < oneSecond) (ha : oneSecond ∣ a)
    (h : cfg.wanting now (some a) = true) (hnow : toTimestamp now < a + cfg.spacing) :
    cfg.createAnchor now (some a) = a := by
  rw [cfg.createAnchor_eq h, if_pos hnow, toTimestamp_of_lt (cfg.spacing_eq h).2.2]
  obtain ⟨k, rfl⟩ := ha
  unfold oneSecond at hs ⊢
  omega

end Step

/-! ## The loop -/

section Loop

variable {cfg : KeyConfig} {now : ClockTime} {keys : List ℕ}

theorem createLoop_of_not_wanting (h : cfg.wanting now keys.getLast? = false) (n : ℕ) :
    cfg.createLoop now n keys = some keys := by
  cases n <;> simp [KeyConfig.createLoop, h]

theorem createLoop_succ (h : cfg.wanting now keys.getLast? = true) (n : ℕ) :
    cfg.createLoop now (n + 1) keys =
      cfg.createLoop now n (keys ++ [cfg.createAnchor now keys.getLast?]) := by
  simp [KeyConfig.createLoop, h]

/-- **A key that is its own successor** is created again and again. -/
theorem createLoop_stuck {a : ℕ} (hw : cfg.wanting now (some a) = true)
    (hself : cfg.createAnchor now (some a) = a) (n : ℕ) (hlast : keys.getLast? = some a) :
    cfg.createLoop now n keys = none := by
  induction n generalizing keys with
  | zero => simp [KeyConfig.createLoop, hlast, hw]
  | succ n ih =>
    rw [createLoop_succ (hlast ▸ hw)]
    exact ih (by rw [List.getLast?_concat, hlast, hself])

/-- New keys: whole seconds, each after all keys before it. -/
structure FreshAfter (keys new : List ℕ) : Prop where
  whole : ∀ a ∈ new, oneSecond ∣ a
  increasing : new.Pairwise (· < ·)
  after : ∀ a ∈ new, ∀ k ∈ keys, k < a

theorem FreshAfter.cons {a : ℕ} {new : List ℕ} (ha : oneSecond ∣ a) (hlt : ∀ k ∈ keys, k < a)
    (h : FreshAfter (keys ++ [a]) new) : FreshAfter keys (a :: new) where
  whole := by simpa [ha] using h.whole
  increasing := List.pairwise_cons.mpr ⟨fun b hb => h.after b hb a (by simp), h.increasing⟩
  after b hb k hk := by
    rcases List.mem_cons.mp hb with rfl | hb
    · exact hlt k hk
    · exact h.after b hb k (by simp [hk])

/-- The files of new keys are their own. -/
theorem FreshAfter.files {new : List ℕ} (hw : ∀ k ∈ keys, oneSecond ∣ k) (h : FreshAfter keys new) :
    (new.map keyFile).Nodup ∧ ∀ a ∈ new, ∀ k ∈ keys, keyFile a ≠ keyFile k := by
  constructor
  · refine List.Pairwise.map keyFile (fun _ _ hne => hne)
      (h.increasing.imp_of_mem fun {a b} ha hb hlt => ?_)
    exact (keyFile_lt (h.whole a ha) (h.whole b hb) hlt).ne
  · intro a ha k hk
    exact (keyFile_lt (hw k hk) (h.whole a ha) (h.after a ha k hk)).ne'

/-- The keys are not after the last one. -/
theorem lt_of_getLast? {a b : ℕ} (hs : keys.Pairwise (· ≤ ·)) (hl : keys.getLast? = some a)
    (h : a < b) : ∀ k ∈ keys, k < b := by
  intro k hk
  obtain ⟨ks, rfl⟩ := List.getLast?_eq_some_iff.mp hl
  rcases List.mem_append.mp hk with hk | hk
  · exact ((List.pairwise_append.mp hs).2.2 k hk a (by simp)).trans_lt h
  · rw [List.mem_singleton.mp hk]
    exact h

/-- **Keys less than a second apart**: a key that follows another one is its own successor. -/
theorem createAnchor_self (hs : cfg.spacing < oneSecond) (hw : ∀ k ∈ keys, oneSecond ∣ k)
    (hshort : cfg.wanting now keys.getLast? = true)
    (hnext : cfg.wanting now (some (cfg.createAnchor now keys.getLast?)) = true) :
    cfg.createAnchor now (some (cfg.createAnchor now keys.getLast?)) =
      cfg.createAnchor now keys.getLast? := by
  have hdvd := cfg.dvd_createAnchor hshort
  have hpos := (cfg.spacing_eq hnext).2.1
  cases hl : keys.getLast? with
  | none =>
    rw [hl] at hnext hdvd
    exact cfg.createAnchor_of_lt hs hdvd hnext (Nat.lt_add_of_pos_right hpos)
  | some b =>
    rw [hl] at hshort hnext hdvd
    by_cases hnow : toTimestamp now < b + cfg.spacing
    · have hb := cfg.createAnchor_of_lt hs (hw b (List.mem_of_getLast? hl)) hshort hnow
      rw [hb, hb]
    · have hts : cfg.createAnchor now (some b) = toTimestamp now := by
        rw [cfg.createAnchor_eq hshort, if_neg hnow]
      rw [hts] at hnext hdvd ⊢
      exact cfg.createAnchor_of_lt hs hdvd hnext (Nat.lt_add_of_pos_right hpos)

/-- How far the last key is from the end of time. -/
def remaining (keys : List ℕ) : ℕ := keys.getLast?.elim (forever + 1) fun a => forever - a

/-- **The loop ends** if keys are at least a second apart. -/
theorem createLoop_spaced (hs : oneSecond ≤ cfg.spacing) (hw : ∀ k ∈ keys, oneSecond ∣ k)
    (hsort : keys.Pairwise (· ≤ ·)) :
    ∃ n new, cfg.createLoop now n keys = some (keys ++ new) ∧ FreshAfter keys new := by
  induction hm : remaining keys using Nat.strong_induction_on generalizing keys with
  | _ m ih =>
    by_cases hshort : cfg.wanting now keys.getLast? = true
    swap
    · refine ⟨0, [], ?_, by simp, .nil, by simp⟩
      rw [List.append_nil]
      exact createLoop_of_not_wanting (Bool.eq_false_of_not_eq_true hshort) 0
    set a := cfg.createAnchor now keys.getLast? with ha
    have hdvd : oneSecond ∣ a := cfg.dvd_createAnchor hshort
    have hlt : ∀ k ∈ keys, k < a := by
      cases hl : keys.getLast? with
      | none => simp [List.getLast?_eq_none_iff.mp hl]
      | some b =>
        rw [hl] at hshort ha
        have hb : oneSecond ∣ b := hw b (List.mem_of_getLast? hl)
        exact lt_of_getLast? hsort hl (ha ▸ cfg.lt_createAnchor hs hb hshort)
    have hrem : remaining (keys ++ [a]) < m := by
      rw [← hm, remaining, remaining, List.getLast?_concat]
      cases hl : keys.getLast? with
      | none =>
        simp only [Option.elim_some, Option.elim_none]
        omega
      | some b =>
        have hba := hlt b (List.mem_of_getLast? hl)
        have hbf := cfg.lt_of_wanting (a := b) (by rwa [hl] at hshort)
        simp only [Option.elim_some]
        omega
    obtain ⟨n, new, hn, hfresh⟩ := ih _ hrem
      (by
        intro k hk
        rcases List.mem_append.mp hk with hk | hk
        · exact hw k hk
        · rwa [List.mem_singleton.mp hk])
      (List.pairwise_append.mpr ⟨hsort, List.pairwise_singleton _ _, fun k hk b hb => by
        rw [List.mem_singleton.mp hb]
        exact (hlt k hk).le⟩) rfl
    refine ⟨n + 1, a :: new, ?_, hfresh.cons hdvd hlt⟩
    rw [createLoop_succ hshort, hn, List.append_assoc]
    rfl

end Loop

/-! ## Keys that are at least a second apart -/

section Spaced

variable (d : KeyDurations) (hd : d.duration < forever) (hl : d.lookaheadSign < forever)

/-- The durations of a module, as long as they come. -/
def KeyDurations.config : KeyConfig where
  duration := d.duration
  overlapDuration := d.overlapDuration
  lookaheadSign := d.lookaheadSign
  overlap_lt := (Nat.lt_add_of_pos_right (by decide)).trans_le d.spaced
  duration_le := hd.le
  lookahead_lt := hl

theorem KeyDurations.spacing_config : (d.config hd hl).spacing = d.duration - d.overlapDuration :=
  relativeSubtract_eq hd.ne

/-- The anchors are those of the module. -/
theorem KeyDurations.createAnchor_config {now : ClockTime} {k : SecmodKey}
    (h : (d.config hd hl).wanting now (some (k.anchor * oneSecond)) = true) :
    (d.config hd hl).createAnchor now (some (k.anchor * oneSecond)) =
      d.newAnchor now (some k) * oneSecond := by
  have hts : ∀ t, t < forever → toTimestamp t = t / oneSecond * oneSecond := fun t ht => by
    rw [toTimestamp_of_lt ht]
    have := Nat.div_add_mod' t oneSecond
    omega
  rw [KeyConfig.createAnchor_eq h, d.spacing_config hd hl, hts now now.2,
    hts _ ((d.spacing_config hd hl) ▸ (KeyConfig.spacing_eq h).2.2)]
  unfold KeyDurations.newAnchor KeyDurations.succession
  dsimp only
  split_ifs
  · rfl
  · rfl

end Spaced

/-! ## When the creation ends -/

/-- **The creation of keys ends**, with a file of its own for every key, if and only if keys are at
least a second apart, or none is wanting, or a single key at another second than the last one. -/
theorem createsFresh_iff (cfg : KeyConfig) (now : ClockTime) (ks : AnchoredKeys) :
    CreatesFresh cfg now ks.anchors ↔ CreationOk cfg now ks.anchors := by
  obtain ⟨keys, hw, hsort⟩ := ks
  dsimp only
  constructor
  · rintro ⟨n, new, hn, -⟩
    by_contra hno
    simp only [CreationOk, not_or, not_and, Bool.not_eq_false, not_le] at hno
    obtain ⟨hs, hshort, hnext⟩ := hno
    by_cases hself : keys.getLast? = some (cfg.createAnchor now keys.getLast?)
    · have hfix : cfg.createAnchor now (some (cfg.createAnchor now keys.getLast?)) =
          cfg.createAnchor now keys.getLast? := by rw [← hself]
      rw [createLoop_stuck (hself ▸ hshort) hfix n hself] at hn
      cases hn
    · have hwant := hnext hself
      have hfix := createAnchor_self hs hw hshort hwant
      cases n with
      | zero =>
        rw [KeyConfig.createLoop, if_pos hshort] at hn
        cases hn
      | succ n =>
        rw [createLoop_succ hshort, createLoop_stuck hwant hfix n List.getLast?_concat] at hn
        cases hn
  · rintro (hs | hno | ⟨hne, hno⟩)
    · obtain ⟨n, new, hn, hfresh⟩ := @createLoop_spaced cfg now keys hs hw hsort
      exact ⟨n, new, hn, hfresh.files hw⟩
    · exact ⟨0, [], by rw [List.append_nil, createLoop_of_not_wanting hno], by simp, by simp⟩
    · by_cases hshort : cfg.wanting now keys.getLast? = true
      swap
      · exact ⟨0, [], by rw [List.append_nil,
          createLoop_of_not_wanting (Bool.eq_false_of_not_eq_true hshort)], by simp, by simp⟩
      have hlt : ∀ k ∈ keys, k < cfg.createAnchor now keys.getLast? := by
        cases hl : keys.getLast? with
        | none => simp [List.getLast?_eq_none_iff.mp hl]
        | some b =>
          rw [hl] at hshort hne
          have hle := cfg.le_createAnchor (hw b (List.mem_of_getLast? hl)) hshort
          exact lt_of_getLast? hsort hl (lt_of_le_of_ne hle fun he => hne (congrArg some he))
      have hfresh : FreshAfter keys [cfg.createAnchor now keys.getLast?] :=
        FreshAfter.cons (cfg.dvd_createAnchor hshort) hlt ⟨by simp, .nil, by simp⟩
      refine ⟨1, _, ?_, hfresh.files hw⟩
      rw [createLoop_succ hshort, createLoop_of_not_wanting (by rwa [List.getLast?_concat])]

/-- Keys for a day with an hour of overlap, a day ahead. -/
def dailyKeys : KeyDurations where
  duration := 86400000000
  overlapDuration := 3600000000
  lookaheadSign := 86400000000
  spaced := by decide

/-- The keys of two days. -/
def twoDays : AnchoredKeys where
  anchors := [1700000000 * oneSecond, 1700082800 * oneSecond]
  whole := by simp
  sorted := by simp [oneSecond]

/-- The second key has a successor, which is the one of the module. -/
theorem createsFresh_twoDays :
    CreatesFresh (dailyKeys.config (by decide) (by decide))
        ⟨1700080000 * oneSecond, by decide⟩ twoDays.anchors ∧
      (dailyKeys.config (by decide) (by decide)).createAnchor
          ⟨1700080000 * oneSecond, by decide⟩ (some (1700082800 * oneSecond)) =
        dailyKeys.newAnchor (1700080000 * oneSecond) (some ⟨1, 1700082800, 0, 0, false⟩) *
          oneSecond := by
  constructor
  · refine (createsFresh_iff _ _ twoDays).mpr (.inl ?_)
    rw [KeyDurations.spacing_config]
    decide
  · exact @KeyDurations.createAnchor_config dailyKeys (by decide) (by decide)
      ⟨1700080000 * oneSecond, by decide⟩ ⟨1, 1700082800, 0, 0, false⟩ (by decide)

/-- Keys for half a second, ten seconds ahead. -/
def halfSecond : KeyConfig where
  duration := 500000
  overlapDuration := 0
  lookaheadSign := 10000000
  overlap_lt := by decide
  duration_le := by decide
  lookahead_lt := by decide

/-- The first key is its own successor, and the loop does not end. -/
theorem not_createsFresh : parseDenominationCfg 0 ⟨10000000, by decide⟩ ⟨500000, by decide⟩ =
    some halfSecond ∧ ¬ CreatesFresh halfSecond ⟨1700000000000000, by decide⟩ [] := by
  refine ⟨rfl, ?_⟩
  rintro ⟨n, new, hn, -⟩
  have hself : halfSecond.createAnchor ⟨1700000000000000, by decide⟩ (some 1700000000000000) =
      1700000000000000 := by decide
  cases n with
  | zero => cases hn
  | succ n =>
    rw [createLoop_succ rfl] at hn
    cases (createLoop_stuck (a := 1700000000000000) rfl hself n rfl).symm.trans hn

end TalerExchange
