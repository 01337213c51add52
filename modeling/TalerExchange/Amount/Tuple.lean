import TalerExchange.Amount.Text
import TalerExchange.Machine.Bytes

/-!
# Amounts as binary tuples

The binary form of an amount in a parameter of a query (`pq_common.c`) and in a result
(`pq_result_helper.c`).

* `makePqAmount`, `makePqAmountCurrency`; `extractAmountTuple`, `extractAmountCurrencyTuple`;
* `tupleParts_makePqAmount`, `extractAmountTuple_makePqAmount`: the fields come back;
* `LeavesValid`: the tuples that are rejected and leave a valid amount;
* **`amountTuple_iff`**: the amounts that survive, and the tuples that are rejected properly.
-/

namespace TalerExchange

namespace RawAmount

/-! ## Parameters -/

/-- The object identifiers of the types of the components. -/
structure TupleOids where
  oidV : BitVec 32
  oidF : BitVec 32
  oidC : BitVec 32

/-- The bytes of a string. -/
def stringBytes (s : List Char) : List UInt8 := s.map fun c => UInt8.ofNat c.toNat

/-- `TALER_PQ_make_taler_pq_amount_`: a `struct TALER_PQ_AmountP`. -/
def makePqAmount (amount : RawAmount) (oids : TupleOids) : List UInt8 :=
  bigEndian 4 2 ++ (bigEndian 4 oids.oidV.toNat ++ (bigEndian 4 8 ++
    (bigEndian 8 amount.value.toNat ++ (bigEndian 4 oids.oidF.toNat ++ (bigEndian 4 4 ++
      bigEndian 4 amount.fraction.toNat)))))

/-- `TALER_PQ_make_taler_pq_amount_currency_`: the useful part of a `struct
TALER_PQ_AmountCurrencyP`. -/
def makePqAmountCurrency (amount : RawAmount) (oids : TupleOids) : Except Fault (List UInt8) :=
  let clen := amount.currency.length
  if clen < currencyLen then
    .ok (bigEndian 4 3 ++ (bigEndian 4 oids.oidV.toNat ++ (bigEndian 4 8 ++
      (bigEndian 8 amount.value.toNat ++ (bigEndian 4 oids.oidF.toNat ++ (bigEndian 4 4 ++
        (bigEndian 4 amount.fraction.toNat ++ (bigEndian 4 oids.oidC.toNat ++
          (bigEndian 4 clen ++ stringBytes amount.currency)))))))))
  else .error .assertion

/-! ## Results -/

/-- A field of a result. -/
inductive Cell
  | missing
  | null
  | value (bytes : List UInt8)
deriving DecidableEq

/-- The number in a field of a tuple. -/
def fieldAt (bytes : List UInt8) (i n : ℕ) : ℕ := ofBigEndian (slice bytes i n)

/-- `-1` as the size of a component. -/
def nullSize : ℕ := 2 ^ 32 - 1

/-- The check of the ranges; `r` is what the output holds then. -/
def checkRanges (r : RawAmount) (done : RawAmount) : Generic × RawAmount :=
  if r.value.toNat ≥ maxValue then (.sysErr, r)
  else if r.fraction.toNat ≥ fracBase then (.sysErr, r)
  else (.ok, done)

/-- The value and the fraction of a tuple. -/
def tupleParts (bytes : List UInt8) (currency : List Char) : RawAmount :=
  ⟨BitVec.ofNat 64 (fieldAt bytes 12 8), BitVec.ofNat 32 (fieldAt bytes 28 4), currency⟩

/-- `extract_amount_tuple`: the code, and the output. -/
def extractAmountTuple (currency : List Char) : Cell → Generic × RawAmount
  | .missing => (.sysErr, invalid)
  | .null => (.no, invalid)
  | .value bytes =>
    let size := bytes.length
    if size = 20 then
      if fieldAt bytes 0 4 = 2 ∧ fieldAt bytes 8 4 = nullSize ∧ fieldAt bytes 16 4 = nullSize then
        (.no, invalid)
      else (.sysErr, invalid)
    else if size ≠ 32 then (.sysErr, invalid)
    else if fieldAt bytes 0 4 ≠ 2 then (.sysErr, invalid)
    else checkRanges (tupleParts bytes [])
      (tupleParts bytes (currency.take (min (currencyLen - 1) currency.length)))

/-- `ap.c`: what there is of the currency, then zeros. -/
def currencyBuffer (bytes : List UInt8) : List UInt8 :=
  bytes.drop 40 ++ List.replicate (currencyLen - (bytes.drop 40).length) 0

/-- The string in a buffer. -/
def bufferString (buffer : List UInt8) : List Char :=
  (buffer.takeWhile (· ≠ 0)).map fun b => Char.ofNat b.toNat

/-- `extract_amount_currency_tuple`: the code, and the output. -/
def extractAmountCurrencyTuple : Cell → Generic × RawAmount
  | .missing => (.sysErr, invalid)
  | .null => (.no, invalid)
  | .value bytes =>
    let size := bytes.length
    if size ≥ 52 ∨ size ≤ 40 then (.sysErr, invalid)
    else if fieldAt bytes 0 4 ≠ 3 then (.sysErr, invalid)
    else if (currencyBuffer bytes)[currencyLen - 1]? ≠ some 0 then (.sysErr, invalid)
    else
      let r := tupleParts bytes (bufferString (currencyBuffer bytes))
      checkRanges r r

/-! ## The fields come back -/

theorem fieldAt_skip {xs : List UInt8} {k : ℕ} (h : xs.length = k) (ys : List UInt8) (i n : ℕ) :
    fieldAt (xs ++ ys) (k + i) n = fieldAt ys i n :=
  congrArg ofBigEndian (slice_skip h ys i n)

theorem fieldAt_bigEndian {n x : ℕ} (h : x < 256 ^ n) (ys : List UInt8) :
    fieldAt (bigEndian n x ++ ys) 0 n = x :=
  (congrArg ofBigEndian (slice_here (length_bigEndian n x) ys)).trans (ofBigEndian_bigEndian h)

/-- The value and the fraction in a tuple that begins like one that was made. -/
theorem tupleParts_append (a : RawAmount) (oids : TupleOids) (n : ℕ) (rest : List UInt8)
    (cur : List Char) :
    tupleParts (bigEndian 4 n ++ (bigEndian 4 oids.oidV.toNat ++ (bigEndian 4 8 ++
      (bigEndian 8 a.value.toNat ++ (bigEndian 4 oids.oidF.toNat ++ (bigEndian 4 4 ++
        (bigEndian 4 a.fraction.toNat ++ rest))))))) cur = ⟨a.value, a.fraction, cur⟩ := by
  unfold tupleParts
  rw [show 12 = 4 + (4 + (4 + 0)) from rfl, show 28 = 4 + (4 + (4 + (8 + (4 + (4 + 0))))) from rfl]
  simp only [fieldAt_skip (length_bigEndian _ _)]
  rw [fieldAt_bigEndian a.value.isLt, fieldAt_bigEndian a.fraction.isLt, BitVec.ofNat_toNat,
    BitVec.ofNat_toNat, BitVec.setWidth_eq, BitVec.setWidth_eq]

theorem fieldAt_lt (bytes : List UInt8) (i n : ℕ) : fieldAt bytes i n < 256 ^ n :=
  (ofBigEndian_lt _).trans_le (Nat.pow_le_pow_right (by decide) (List.length_take_le _ _))

theorem value_tupleParts (bytes : List UInt8) (cur : List Char) :
    (tupleParts bytes cur).value.toNat = fieldAt bytes 12 8 :=
  Nat.mod_eq_of_lt (fieldAt_lt bytes 12 8)

theorem fraction_tupleParts (bytes : List UInt8) (cur : List Char) :
    (tupleParts bytes cur).fraction.toNat = fieldAt bytes 28 4 :=
  Nat.mod_eq_of_lt (fieldAt_lt bytes 28 4)

/-- The range checks on a normalised amount: the largest value does not pass. -/
theorem checkRanges_eq_ok {r done : RawAmount} :
    checkRanges r done = (.ok, done) ↔ r.value.toNat < maxValue ∧ r.IsNormal := by
  unfold checkRanges IsNormal
  split_ifs with h₁ h₂
  · exact iff_of_false (fun h => nomatch h) fun h => absurd h.1 (not_lt.2 h₁)
  · exact iff_of_false (fun h => nomatch h) fun h => absurd h.2 (not_lt.2 h₂)
  · exact iff_of_true rfl ⟨not_le.1 h₁, not_le.1 h₂⟩

section Made

variable (a : RawAmount) (oids : TupleOids)

theorem tupleParts_makePqAmount (cur : List Char) :
    tupleParts (a.makePqAmount oids) cur = ⟨a.value, a.fraction, cur⟩ := by
  have h := tupleParts_append a oids 2 [] cur
  rwa [List.append_nil] at h

theorem extractAmountTuple_makePqAmount (cur : List Char) :
    extractAmountTuple cur (.value (a.makePqAmount oids)) =
      checkRanges ⟨a.value, a.fraction, []⟩
        ⟨a.value, a.fraction, cur.take (min (currencyLen - 1) cur.length)⟩ := by
  have hsize : (a.makePqAmount oids).length = 32 := by
    unfold makePqAmount
    simp only [List.length_append, length_bigEndian]
  have hcnt : fieldAt (a.makePqAmount oids) 0 4 = 2 := fieldAt_bigEndian (by decide) _
  unfold extractAmountTuple
  dsimp only
  rw [hsize, hcnt, if_neg (by decide), if_neg (by decide), if_neg (by decide),
    tupleParts_makePqAmount, tupleParts_makePqAmount]

/-- A string of letters is read back from its bytes and what fills the buffer. -/
theorem bufferString_stringBytes {s : List Char} (h : ∀ c ∈ s, 'A' ≤ c ∧ c ≤ 'Z') (n : ℕ) :
    bufferString (stringBytes s ++ List.replicate n 0) = s := by
  have hbyte : ∀ c ∈ s, (UInt8.ofNat c.toNat).toNat = c.toNat ∧ c.toNat ≠ 0 := by
    intro c hc
    have h₀ : 65 ≤ c.toNat := (h c hc).1
    have h₁ : c.toNat ≤ 90 := (h c hc).2
    rw [UInt8.toNat_ofNat', Nat.mod_eq_of_lt (by omega)]
    exact ⟨rfl, by omega⟩
  have hzero : (List.replicate n (0 : UInt8)).takeWhile (· ≠ 0) = [] := by
    cases n <;> rfl
  unfold bufferString stringBytes
  rw [List.takeWhile_append_of_pos, hzero, List.append_nil, List.map_map]
  · refine (List.map_congr_left fun c hc => ?_).trans (List.map_id s)
    change Char.ofNat (UInt8.ofNat c.toNat).toNat = c
    rw [(hbyte c hc).1, Char.ofNat_toNat]
  · intro b hb
    obtain ⟨c, hc, rfl⟩ := List.mem_map.1 hb
    refine decide_eq_true fun h0 => (hbyte c hc).2 ?_
    rw [← (hbyte c hc).1, h0]
    rfl

theorem drop_skip {xs : List UInt8} {k : ℕ} (h : xs.length = k) (ys : List UInt8) (i : ℕ) :
    (xs ++ ys).drop (k + i) = ys.drop i := by
  rw [← h, List.drop_append, List.drop_eq_nil_of_le (Nat.le_add_right _ _), List.nil_append,
    Nat.add_sub_cancel_left]

/-- The buffer always ends with a zero. -/
theorem currencyBuffer_last {bytes : List UInt8} (h : bytes.length < 52) :
    (currencyBuffer bytes)[currencyLen - 1]? = some 0 := by
  have hlen : (bytes.drop 40).length ≤ currencyLen - 1 := by
    rw [List.length_drop]
    dsimp only [currencyLen]
    omega
  unfold currencyBuffer
  rw [List.getElem?_append_right hlen, List.getElem?_replicate, if_pos]
  dsimp only [currencyLen] at *
  omega

theorem extractAmountCurrencyTuple_makePqAmountCurrency (hc : a.currency ≠ [])
    (hlegal : checkCurrency a.currency = .ok) :
    ∃ bytes, a.makePqAmountCurrency oids = .ok bytes ∧
      tupleParts bytes (bufferString (currencyBuffer bytes)) = a ∧
      extractAmountCurrencyTuple (.value bytes) = checkRanges a a := by
  obtain ⟨hlen, hletter⟩ := checkCurrency_eq_ok.1 hlegal
  have hpos := List.length_pos_iff.2 hc
  refine ⟨_, if_pos hlen, ?_⟩
  generalize hbytes : bigEndian 4 3 ++ _ = bytes
  have hsize : bytes.length = 40 + a.currency.length := by
    rw [← hbytes]
    unfold stringBytes
    simp only [List.length_append, length_bigEndian, List.length_map]
    omega
  have hcnt : fieldAt bytes 0 4 = 3 := by
    rw [← hbytes]
    exact fieldAt_bigEndian (by decide) _
  have hdrop : bytes.drop 40 = stringBytes a.currency := by
    rw [← hbytes, show 40 = 4 + (4 + (4 + (8 + (4 + (4 + (4 + (4 + (4 + 0)))))))) from rfl]
    simp only [drop_skip (length_bigEndian _ _)]
    rfl
  have hparts : tupleParts bytes (bufferString (currencyBuffer bytes)) = a := by
    have hcur : bufferString (currencyBuffer bytes) = a.currency := by
      unfold currencyBuffer
      rw [hdrop, bufferString_stringBytes hletter]
    rw [hcur, ← hbytes, tupleParts_append]
  refine ⟨hparts, ?_⟩
  dsimp only [currencyLen] at hlen
  unfold extractAmountCurrencyTuple
  dsimp only
  rw [if_neg (by omega), if_neg (not_not_intro hcnt),
    if_neg (not_not_intro (currencyBuffer_last (by omega))), hparts]

end Made

/-! ## The amounts that survive -/

/-- Both forms of the amount are accepted, and give the amount again. -/
structure Survives (a : RawAmount) (oids : TupleOids) : Prop where
  plain : extractAmountTuple a.currency (.value (a.makePqAmount oids)) = (.ok, a)
  withCurrency : ∃ bytes, a.makePqAmountCurrency oids = .ok bytes ∧
    extractAmountCurrencyTuple (.value bytes) = (.ok, a)

theorem survives_iff {a : RawAmount} (ha : a.Canonical) (oids : TupleOids) :
    Survives a oids ↔ a.value.toNat < maxValue := by
  have hlen := (checkCurrency_eq_ok.1 ha.legal).1
  have htake : a.currency.take (min (currencyLen - 1) a.currency.length) = a.currency := by
    refine List.take_of_length_le ?_
    dsimp only [currencyLen] at *
    omega
  have hplain := extractAmountTuple_makePqAmount a oids a.currency
  rw [htake] at hplain
  obtain ⟨bytes, hmake, -, hextract⟩ :=
    extractAmountCurrencyTuple_makePqAmountCurrency a oids (isValid_eq_ok.1 ha.valid).2 ha.legal
  constructor
  · intro h
    exact (checkRanges_eq_ok.1 (hplain.symm.trans h.plain)).1
  · intro h
    exact ⟨hplain.trans (checkRanges_eq_ok.2 ⟨h, ha.normal⟩), bytes, hmake,
      hextract.trans (checkRanges_eq_ok.2 ⟨h, ha.normal⟩)⟩

/-- Tuples tell amounts apart. -/
theorem makePqAmountCurrency_injective {a b : RawAmount} (ha : a.Canonical) (hb : b.Canonical)
    (oids : TupleOids) (h : a.makePqAmountCurrency oids = b.makePqAmountCurrency oids) : a = b := by
  obtain ⟨bytes, hmake, hparts, -⟩ :=
    extractAmountCurrencyTuple_makePqAmountCurrency a oids (isValid_eq_ok.1 ha.valid).2 ha.legal
  obtain ⟨bytes', hmake', hparts', -⟩ :=
    extractAmountCurrencyTuple_makePqAmountCurrency b oids (isValid_eq_ok.1 hb.valid).2 hb.legal
  rw [hmake, hmake'] at h
  cases h
  exact hparts.symm.trans hparts'

theorem makePqAmount_injective {a b : RawAmount} (hcur : a.currency = b.currency) (oids : TupleOids)
    (h : a.makePqAmount oids = b.makePqAmount oids) : a = b := by
  have hparts := congrArg (tupleParts · a.currency) h
  simp only [tupleParts_makePqAmount] at hparts
  have hv := congrArg value hparts
  have hf := congrArg fraction hparts
  exact RawAmount.ext hv hf hcur

/-! ## The tuples that are rejected -/

/-- What is rejected leaves an amount that is not valid. -/
structure RejectedProperly (currency : List Char) (cell : Cell) : Prop where
  plain : (extractAmountTuple currency cell).1 ≠ .ok →
    (extractAmountTuple currency cell).2.isValid ≠ .ok
  withCurrency : (extractAmountCurrencyTuple cell).1 ≠ .ok →
    (extractAmountCurrencyTuple cell).2.isValid ≠ .ok

/-- A tuple with a currency whose value is the largest one, or whose value is in range and whose
fraction is not. -/
def LeavesValid : Cell → Prop
  | .value bytes => 40 < bytes.length ∧ bytes.length < 52 ∧ fieldAt bytes 0 4 = 3 ∧
      bytes[40]? ≠ some 0 ∧ fieldAt bytes 12 8 ≤ maxValue ∧
      (fieldAt bytes 12 8 = maxValue ∨ fracBase ≤ fieldAt bytes 28 4)
  | _ => False

theorem isValid_of_currency_nil {a : RawAmount} (h : a.currency = []) :
    a.isValid ≠ .ok := fun hok =>
  (isValid_eq_ok.1 hok).2 h

theorem checkRanges_rejected {r : RawAmount} :
    ((checkRanges r r).1 ≠ .ok → (checkRanges r r).2.isValid ≠ .ok) ↔
      (maxValue ≤ r.value.toNat ∨ fracBase ≤ r.fraction.toNat → r.isValid ≠ .ok) := by
  unfold checkRanges
  split_ifs with h₁ h₂
  · exact imp_congr_left (iff_of_true (fun h => nomatch h) (Or.inl h₁))
  · exact imp_congr_left (iff_of_true (fun h => nomatch h) (Or.inr h₂))
  · exact imp_congr_left (iff_of_false (fun h => h rfl) (not_or.2 ⟨h₁, h₂⟩))

/-- A tuple without a currency sets the currency last. -/
theorem extractAmountTuple_rejected (currency : List Char) (cell : Cell)
    (h : (extractAmountTuple currency cell).1 ≠ .ok) :
    (extractAmountTuple currency cell).2.isValid ≠ .ok := by
  cases cell with
  | missing => exact isValid_invalid
  | null => exact isValid_invalid
  | value bytes =>
    unfold extractAmountTuple checkRanges at *
    dsimp only at *
    split_ifs at *
    all_goals first
      | exact isValid_invalid
      | exact isValid_of_currency_nil rfl
      | exact absurd rfl h

theorem bufferString_currencyBuffer {bytes : List UInt8} (h : 40 < bytes.length) :
    bufferString (currencyBuffer bytes) = [] ↔ bytes[40]? = some 0 := by
  have hdrop := List.drop_eq_getElem_cons h
  unfold bufferString currencyBuffer
  rw [hdrop, List.cons_append, List.map_eq_nil_iff, List.getElem?_eq_getElem h, Option.some.injEq]
  by_cases h0 : bytes[40] = 0
  · rw [List.takeWhile_cons_of_neg (by simpa using h0)]
    exact iff_of_true rfl h0
  · rw [List.takeWhile_cons_of_pos (by simpa using h0)]
    exact iff_of_false (List.cons_ne_nil _ _) h0

theorem extractAmountCurrencyTuple_rejected (cell : Cell) :
    ((extractAmountCurrencyTuple cell).1 ≠ .ok →
      (extractAmountCurrencyTuple cell).2.isValid ≠ .ok) ↔ ¬ LeavesValid cell := by
  cases cell with
  | missing => exact iff_of_true (fun _ => isValid_invalid) fun h => h
  | null => exact iff_of_true (fun _ => isValid_invalid) fun h => h
  | value bytes =>
    unfold extractAmountCurrencyTuple LeavesValid
    dsimp only
    by_cases hsize : bytes.length ≥ 52 ∨ bytes.length ≤ 40
    · rw [if_pos hsize]
      exact iff_of_true (fun _ => isValid_invalid) fun h => by omega
    by_cases hcnt : fieldAt bytes 0 4 = 3
    swap
    · rw [if_neg hsize, if_pos hcnt]
      exact iff_of_true (fun _ => isValid_invalid) fun h => hcnt h.2.2.1
    rw [if_neg hsize, if_neg (not_not_intro hcnt),
      if_neg (not_not_intro (currencyBuffer_last (by omega)))]
    have hcur := bufferString_currencyBuffer (show 40 < bytes.length by omega)
    have hv := value_tupleParts bytes (bufferString (currencyBuffer bytes))
    have hf := fraction_tupleParts bytes (bufferString (currencyBuffer bytes))
    refine checkRanges_rejected.trans ?_
    have hvalid : (tupleParts bytes (bufferString (currencyBuffer bytes))).isValid = .ok ↔
        fieldAt bytes 12 8 ≤ maxValue ∧ bytes[40]? ≠ some 0 := by
      rw [isValid_eq_ok, hv, ne_eq, ne_eq, ← hcur]
      exact Iff.rfl
    rw [hv, hf, ne_eq, hvalid]
    constructor
    · rintro h ⟨-, -, -, hne, hle, hrange⟩
      exact h (hrange.imp (fun h => h.ge) id) ⟨hle, hne⟩
    · rintro h hrange ⟨hle, hne⟩
      rw [not_or, not_le, not_le] at hsize
      exact h ⟨hsize.2, hsize.1, hcnt, hne, hle, hrange.imp (fun h => le_antisymm hle h) id⟩

theorem rejectedProperly_iff (currency : List Char) (cell : Cell) :
    RejectedProperly currency cell ↔ ¬ LeavesValid cell :=
  ⟨fun h => (extractAmountCurrencyTuple_rejected cell).1 h.withCurrency, fun h =>
    ⟨extractAmountTuple_rejected currency cell, (extractAmountCurrencyTuple_rejected cell).2 h⟩⟩

/-- **The amounts that survive, and the tuples that are rejected properly**: what the amount
arithmetic produces comes back from both forms unless its value is the largest one, different
amounts have different tuples, and a rejected tuple leaves no valid amount unless it has a currency
and only its range is wrong. -/
theorem amountTuple_iff (oids : TupleOids) :
    (∀ a : RawAmount, a.Canonical → (Survives a oids ↔ a.value.toNat < maxValue)) ∧
    (∀ a b : RawAmount, a.currency = b.currency → a.makePqAmount oids = b.makePqAmount oids →
      a = b) ∧
    (∀ a b : RawAmount, a.Canonical → b.Canonical →
      a.makePqAmountCurrency oids = b.makePqAmountCurrency oids → a = b) ∧
    ∀ (currency : List Char) (cell : Cell), RejectedProperly currency cell ↔ ¬ LeavesValid cell :=
  ⟨fun _ ha => survives_iff ha oids, fun _ _ hcur => makePqAmount_injective hcur oids,
    fun _ _ ha hb => makePqAmountCurrency_injective ha hb oids, rejectedProperly_iff⟩

/-- Some object identifiers. -/
def someOids : TupleOids := ⟨20, 23, 25⟩

theorem amountTuple_iff_small : Survives ⟨4, 12000000, ['E', 'U', 'R']⟩ someOids :=
  ((amountTuple_iff someOids).1 _ ⟨by decide, by decide, by unfold IsNormal; decide⟩).2 (by decide)

/-- The largest amount does not come back. -/
theorem not_amountTuple :
    ¬ ∀ (a : RawAmount) (oids : TupleOids) (currency : List Char) (cell : Cell), a.Canonical →
      Survives a oids ∧ RejectedProperly currency cell := by
  intro h
  have hmax : (⟨2 ^ 52, 0, ['E', 'U', 'R']⟩ : RawAmount).Canonical :=
    ⟨by decide, by decide, by unfold IsNormal; decide⟩
  have hlt := (survives_iff hmax someOids).1 (h _ someOids [] .null hmax).1
  exact absurd hlt (by decide)

end RawAmount

end TalerExchange
