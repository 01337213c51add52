import TalerExchange.Keys.Response

/-!
# The responses of `/keys` are exact

After the keys of one start time the array of groups lists all keys from this time on, and the signatures
in their order are those of the array. A response is made of both.

* `listedIn`, `ExactResponses`: what is listed, what the responses are to be;
* `elementsFrom_modify`, **`sortElements_of_perm`**: the signatures follow the array;
* `Built`: the array and the signatures after some keys; `LoopInv`: the responses so far;
* **`finishKeysResponse_exact`**.
-/

namespace TalerExchange

/-! ## What is listed -/

/-- A group without its list. -/
def GroupJson.header (g : GroupJson) : GroupJson := { g with denoms := [] }

/-- The denominations listed, each with its group. -/
def listedIn (gs : List GroupJson) : List (GroupJson × DenomJson) :=
  gs.flatMap fun g => g.denoms.map fun d => (g.header, d)

/-- What is listed for a key. -/
def OfferedDenomination.item (e : KeysEnv) (dk : OfferedDenomination) : GroupJson × DenomJson :=
  (dk.group.json, dk.json e)

/-- A response lists the keys from its date on, and the hash and the date that the client computes are
the signed ones. -/
structure ExactResponse (e : KeysEnv) (current : List OfferedDenomination) (recoup : List HashCode)
    (krd : KeysResponseData) : Prop where
  listed : (listedIn krd.response.denominations).Perm
    ((current.filter fun dk => krd.cherryPickDate ≤ dk.start).map (OfferedDenomination.item e))
  recoup : krd.response.recoup = recoup
  issued : krd.response.listIssueDate = krd.cherryPickDate
  signed : e.sign krd.cherryPickDate (decodedHash e krd.response) =
    some (krd.response.exchangePub, krd.response.exchangeSig)
  verifies : signatureVerifies e krd.response = true

/-- **The responses are exact.** -/
structure ExactResponses (e : KeysEnv) (keys : List OfferedDenomination)
    (krds : List KeysResponseData) : Prop where
  descending : krds.Pairwise fun a b => b.cherryPickDate < a.cherryPickDate
  dates : ∀ d, (∃ krd ∈ krds, krd.cherryPickDate = d) ↔ ∃ dk ∈ currentKeys keys, dk.start = d
  responses : ∀ krd ∈ krds, ExactResponse e (currentKeys keys) (recoupKeys e keys) krd
  answered : ∀ krd ∈ krds, ∀ overloaded etag,
    (keysReply overloaded krds etag krd.cherryPickDate).krd? = some krd
  complete : ∀ d, (∀ krd ∈ krds, krd.cherryPickDate ≠ d) → currentKeys keys ≠ [] →
    ∀ overloaded etag, ∃ krd ∈ krds, (keysReply overloaded krds etag d).krd? = some krd ∧
      (listedIn krd.response.denominations).Perm
        ((currentKeys keys).map (OfferedDenomination.item e))

/-! ## The signatures follow the array -/

section Elements

variable {g : GroupJson} {gs : List GroupJson} {d : DenomJson} {off i : ℕ}
  {a b c : SignatureElement} {l : List SignatureElement}

/-- A denomination is appended to the list of a group. -/
def GroupJson.append (d : DenomJson) (g : GroupJson) : GroupJson := { g with denoms := g.denoms ++ [d] }

theorem listedIn_cons : listedIn (g :: gs) = (g.denoms.map fun d => (g.header, d)) ++ listedIn gs := rfl

theorem listedIn_append (gs gs' : List GroupJson) :
    listedIn (gs ++ gs') = listedIn gs ++ listedIn gs' := List.flatMap_append

theorem listedIn_modify (h : gs[off]? = some g) :
    (listedIn (gs.modify off (GroupJson.append d))).Perm (listedIn gs ++ [(g.header, d)]) := by
  induction gs generalizing off with
  | nil => cases h
  | cons g' gs ih =>
    cases off with
    | zero =>
      obtain rfl : g' = g := Option.some.inj h
      rw [List.modify_zero_cons, listedIn_cons, listedIn_cons]
      show (((g'.denoms ++ [d]).map fun d => (g'.header, d)) ++ listedIn gs).Perm _
      rw [List.map_append, List.append_assoc, List.append_assoc]
      exact List.perm_append_comm.append_left _
    | succ off =>
      rw [List.modify_succ_cons, listedIn_cons, listedIn_cons, List.append_assoc]
      exact (ih h).append_left _

theorem elementsFrom_cons : elementsFrom i (g :: gs) =
    (g.denoms.zipIdx.map fun d => ⟨d.2, i, d.1.masterSig⟩) ++ elementsFrom (i + 1) gs := rfl

/-- A group without denominations has no signatures. -/
theorem elementsFrom_concat (hg : g.denoms = []) : elementsFrom i (gs ++ [g]) = elementsFrom i gs := by
  induction gs generalizing i with
  | nil =>
    rw [List.nil_append, elementsFrom_cons, hg]
    rfl
  | cons g' gs ih => rw [List.cons_append, elementsFrom_cons, elementsFrom_cons, ih]

theorem elementsFrom_modify (h : gs[off]? = some g) :
    (elementsFrom i (gs.modify off (GroupJson.append d))).Perm
      (elementsFrom i gs ++ [⟨g.denoms.length, i + off, d.masterSig⟩]) := by
  induction gs generalizing off i with
  | nil => cases h
  | cons g' gs ih =>
    cases off with
    | zero =>
      obtain rfl : g' = g := Option.some.inj h
      rw [List.modify_zero_cons, elementsFrom_cons, elementsFrom_cons]
      show (((g'.denoms ++ [d]).zipIdx.map _) ++ elementsFrom (i + 1) gs).Perm _
      rw [List.zipIdx_append, List.map_append, List.append_assoc, List.append_assoc, Nat.zero_add]
      exact List.perm_append_comm.append_left _
    | succ off =>
      rw [List.modify_succ_cons, elementsFrom_cons, elementsFrom_cons, List.append_assoc,
        show i + (off + 1) = i + 1 + off by omega]
      exact (ih h).append_left _

/-- The order of `signature_context_sort_cb`, strictly. -/
def SignatureElement.Lt (a b : SignatureElement) : Prop :=
  a.groupOffset < b.groupOffset ∨ (a.groupOffset = b.groupOffset ∧ a.offset < b.offset)

theorem groupOffset_of_mem (h : a ∈ elementsFrom i gs) : i ≤ a.groupOffset := by
  induction gs generalizing i with
  | nil => cases h
  | cons g gs ih =>
    rcases List.mem_append.mp h with h | h
    · obtain ⟨d, -, rfl⟩ := List.mem_map.mp h
      exact le_rfl
    · exact (Nat.le_succ i).trans (ih h)

/-- **The client collects the signatures in order.** -/
theorem pairwise_elementsFrom : (elementsFrom i gs).Pairwise SignatureElement.Lt := by
  induction gs generalizing i with
  | nil => exact List.Pairwise.nil
  | cons g gs ih =>
    rw [elementsFrom_cons, List.pairwise_append]
    refine ⟨?_, ih, fun a ha b hb => Or.inl ?_⟩
    · rw [List.pairwise_map, List.pairwise_iff_getElem]
      intro j k hj hk hjk
      rw [List.getElem_zipIdx, List.getElem_zipIdx]
      refine Or.inr ⟨rfl, ?_⟩
      show 0 + j < 0 + k
      omega
    · obtain ⟨d, -, rfl⟩ := List.mem_map.mp ha
      exact groupOffset_of_mem hb

instance SignatureElement.total_le : Std.Total SignatureElement.Le :=
  ⟨fun a b => by
    unfold SignatureElement.Le
    omega⟩

instance SignatureElement.isTrans_le : IsTrans SignatureElement SignatureElement.Le :=
  ⟨fun a b c hab hbc => by
    unfold SignatureElement.Le at *
    omega⟩

theorem SignatureElement.Lt.le (h : a.Lt b) : a.Le b := by
  unfold SignatureElement.Lt at h
  unfold SignatureElement.Le
  omega

/-- Two elements of the array at one place are the same: the assertion of the comparator holds. -/
theorem eq_of_le_of_le (ha : a ∈ elementsFrom i gs) (hb : b ∈ elementsFrom i gs) (hab : a.Le b)
    (hba : b.Le a) : a = b := by
  obtain ⟨j, hj, rfl⟩ := List.mem_iff_getElem.mp ha
  obtain ⟨k, hk, rfl⟩ := List.mem_iff_getElem.mp hb
  have hpair := List.pairwise_iff_getElem.mp (@pairwise_elementsFrom gs i)
  rcases Nat.lt_trichotomy j k with hlt | rfl | hgt
  · have := hpair j k hj hk hlt
    unfold SignatureElement.Lt at this
    unfold SignatureElement.Le at hab hba
    omega
  · rfl
  · have := hpair k j hk hj hgt
    unfold SignatureElement.Lt at this
    unfold SignatureElement.Le at hab hba
    omega

/-- **Sorting gives the order of the array**, whatever the order before. -/
theorem sortElements_of_perm (h : l.Perm (elementsFrom i gs)) : sortElements l = elementsFrom i gs := by
  have hperm : (sortElements l).Perm (elementsFrom i gs) := (List.perm_insertionSort _ l).trans h
  exact List.Perm.eq_of_pairwise (fun a b ha hb => eq_of_le_of_le (hperm.mem_iff.mp ha) hb)
    (List.pairwise_insertionSort _ l) (pairwise_elementsFrom.imp SignatureElement.Lt.le) hperm

end Elements

/-! ## The array and the signatures -/

section Built

variable {e : KeysEnv} {recoup : List HashCode} {heap : MaxHeap} {keys all seen : List OfferedDenomination}
  {b b' : KeysBuild} {dk : OfferedDenomination} {m : DenominationGroup} {off d : ℕ}

/-- The array lists the keys seen so far, the signatures are those of the array, and every group is at
its position. -/
structure Built (e : KeysEnv) (seen : List OfferedDenomination) (b : KeysBuild) : Prop where
  listed : (listedIn b.groupedDenominations).Perm (seen.map (OfferedDenomination.item e))
  sigs : b.sigCtx.Perm (elementsFrom 0 b.groupedDenominations)
  groups : ∀ m off, (m, off) ∈ b.denominationsByGroup →
    ∃ g, b.groupedDenominations[off]? = some g ∧ g.header = m.json

theorem built_empty (e : KeysEnv) : Built e [] {} :=
  ⟨.refl _, .refl _, fun _ _ h => absurd h List.not_mem_nil⟩

theorem Built.frame (h : Built e seen b) (hd : b'.denominationsByGroup = b.denominationsByGroup)
    (hg : b'.groupedDenominations = b.groupedDenominations) (hs : b'.sigCtx.Perm b.sigCtx) :
    Built e seen b' :=
  ⟨hg ▸ h.listed, hg ▸ hs.trans h.sigs, by
    rw [hd, hg]
    exact h.groups⟩

theorem Built.setDate (h : Built e seen b) (d : ℕ) :
    Built e seen { b with lastCherryPickDate := d } := h.frame rfl rfl (List.Perm.refl _)

theorem Built.findGroup (h : Built e seen b) : Built e seen (b.findGroup m).1 ∧
    ∃ g, (b.findGroup m).1.groupedDenominations[(b.findGroup m).2]? = some g ∧ g.header = m.json := by
  unfold KeysBuild.findGroup
  split
  · next off hl =>
    obtain ⟨l₁, l₂, hsplit, -⟩ := List.lookup_eq_some_iff.mp hl
    refine ⟨h, h.groups m off ?_⟩
    rw [hsplit]
    exact List.mem_append_right _ List.mem_cons_self
  · have hnew : (b.groupedDenominations ++ [m.json])[b.groupedDenominations.length]? = some m.json := by
      simp
    refine ⟨⟨?_, ?_, ?_⟩, m.json, hnew, rfl⟩
    · show (listedIn (b.groupedDenominations ++ [m.json])).Perm _
      rw [listedIn_append]
      exact (List.append_nil _).symm ▸ h.listed
    · show b.sigCtx.Perm (elementsFrom 0 (b.groupedDenominations ++ [m.json]))
      rw [elementsFrom_concat rfl]
      exact h.sigs
    · intro m' off' hm
      rcases List.mem_cons.mp hm with heq | hm
      · cases heq
        exact ⟨m.json, hnew, rfl⟩
      · obtain ⟨g, hg, hh⟩ := h.groups m' off' hm
        exact ⟨g, List.getElem?_append_left (List.getElem?_eq_some_iff.mp hg).1 ▸ hg, hh⟩

theorem Built.append {g : GroupJson} (h : Built e seen b) (hg : b.groupedDenominations[off]? = some g)
    (hh : g.header = dk.group.json) : Built e (seen ++ [dk]) (b.append e off dk) := by
  refine ⟨?_, ?_, ?_⟩
  · refine (listedIn_modify hg).trans ?_
    rw [List.map_append, hh]
    exact h.listed.append_right _
  · show (b.sigCtx ++ _).Perm (elementsFrom 0 (b.groupedDenominations.modify off _))
    refine ((h.sigs.append_right _).trans ?_).trans (elementsFrom_modify hg).symm
    rw [hg, Nat.zero_add]
    rfl
  · intro m' off' hm
    obtain ⟨g', hg', hh'⟩ := h.groups m' off' hm
    show ∃ g, (b.groupedDenominations.modify off _)[off']? = some g ∧ _
    rw [List.getElem?_modify, hg']
    split
    · exact ⟨_, rfl, hh'⟩
    · exact ⟨_, rfl, hh'⟩

/-- **A key is added**: it is listed, and its signature is counted. -/
theorem Built.addDenom (h : Built e seen b) : Built e (seen ++ [dk]) (b.addDenom e dk) := by
  obtain ⟨hb, g, hg, hh⟩ := h.findGroup (m := dk.group)
  exact hb.append hg hh

/-! ## The responses so far -/

/-- `create_krd` appends a response that is exact for the keys seen so far. -/
theorem createKrd_eq_some (hb : Built e seen b) (h : createKrd e recoup b = some b') :
    Built e seen b' ∧ b'.lastCherryPickDate = b.lastCherryPickDate ∧
      ∃ krd, b'.krdArray = b.krdArray ++ [krd] ∧ krd.cherryPickDate = b.lastCherryPickDate ∧
        ((all.filter fun dk => b.lastCherryPickDate ≤ dk.start).Perm seen →
          ExactResponse e all recoup krd) := by
  obtain ⟨⟨pub, sig⟩, hsign, rfl⟩ := Option.map_eq_some_iff.mp h
  refine ⟨hb.frame rfl rfl (List.perm_insertionSort _ _), rfl, _, rfl, rfl, fun hp => ?_⟩
  have hhash : decodedHash e ⟨b.groupedDenominations, recoup, b.lastCherryPickDate, pub, sig⟩ =
      computeMsigHash e b.sigCtx := by
    unfold decodedHash computeMsigHash
    rw [sortElements_of_perm (List.Perm.refl _), sortElements_of_perm hb.sigs]
  refine ⟨hb.listed.trans (hp.map _).symm, rfl, rfl, ?_, ?_⟩
  · rw [hhash]
    exact hsign
  · show e.verify _ (decodedHash e _) _ _ = true
    rw [hhash]
    exact e.verify_sign _ _ _ hsign

/-- **The invariant of the loop**: there is a response for each start seen other than the last one. -/
structure LoopInv (e : KeysEnv) (recoup : List HashCode) (all seen : List OfferedDenomination)
    (b : KeysBuild) : Prop where
  built : Built e seen b
  low : ∀ dk ∈ seen, b.lastCherryPickDate ≤ dk.start
  last : (b.lastCherryPickDate = 0 ∧ seen = []) ∨ ∃ dk ∈ seen, dk.start = b.lastCherryPickDate
  responses : ∀ krd ∈ b.krdArray, ExactResponse e all recoup krd
  above : ∀ krd ∈ b.krdArray, b.lastCherryPickDate < krd.cherryPickDate
  descending : b.krdArray.Pairwise fun a b => b.cherryPickDate < a.cherryPickDate
  dates : ∀ dk ∈ seen, dk.start ≠ b.lastCherryPickDate →
    ∃ krd ∈ b.krdArray, krd.cherryPickDate = dk.start
  starts : ∀ krd ∈ b.krdArray, ∃ dk ∈ seen, dk.start = krd.cherryPickDate

theorem loopInv_empty (e : KeysEnv) (recoup : List HashCode) (all : List OfferedDenomination) :
    LoopInv e recoup all [] {} :=
  ⟨built_empty e, fun _ h => absurd h List.not_mem_nil, Or.inl ⟨rfl, rfl⟩,
    fun _ h => absurd h List.not_mem_nil, fun _ h => absurd h List.not_mem_nil, List.Pairwise.nil,
    fun _ h => absurd h List.not_mem_nil, fun _ h => absurd h List.not_mem_nil⟩

/-- There is a response for each start seen. -/
structure Flushed (e : KeysEnv) (recoup : List HashCode) (all seen : List OfferedDenomination)
    (b : KeysBuild) : Prop where
  built : Built e seen b
  responses : ∀ krd ∈ b.krdArray, ExactResponse e all recoup krd
  atLeast : ∀ krd ∈ b.krdArray, b.lastCherryPickDate ≤ krd.cherryPickDate
  descending : b.krdArray.Pairwise fun a b => b.cherryPickDate < a.cherryPickDate
  dates : ∀ dk ∈ seen, ∃ krd ∈ b.krdArray, krd.cherryPickDate = dk.start
  starts : ∀ krd ∈ b.krdArray, ∃ dk ∈ seen, dk.start = krd.cherryPickDate

/-- **A response is made** once all keys of a start have been seen. -/
theorem LoopInv.flush (h : LoopInv e recoup all seen b) (hne : b.lastCherryPickDate ≠ 0)
    (hp : (all.filter fun dk => b.lastCherryPickDate ≤ dk.start).Perm seen)
    (hc : createKrd e recoup b = some b') :
    Flushed e recoup all seen b' ∧ b'.lastCherryPickDate = b.lastCherryPickDate := by
  obtain ⟨hb, hlast, krd, hkrds, hdate, hx⟩ := createKrd_eq_some h.built hc
  refine ⟨⟨hb, ?_, ?_, ?_, ?_, ?_⟩, hlast⟩
  · intro krd' hk
    rw [hkrds, List.mem_append, List.mem_singleton] at hk
    rcases hk with hk | rfl
    · exact h.responses krd' hk
    · exact hx hp
  · intro krd' hk
    rw [hkrds, List.mem_append, List.mem_singleton] at hk
    rw [hlast]
    rcases hk with hk | rfl
    · exact (h.above krd' hk).le
    · exact hdate.ge
  · rw [hkrds, List.pairwise_append]
    refine ⟨h.descending, List.pairwise_singleton _ _, fun a ha c hc => ?_⟩
    rw [List.mem_singleton.mp hc, hdate]
    exact h.above a ha
  · intro dk hdk
    rw [hkrds]
    by_cases heq : dk.start = b.lastCherryPickDate
    · exact ⟨krd, List.mem_append_right _ (List.mem_singleton.mpr rfl), hdate.trans heq.symm⟩
    · obtain ⟨krd', hk, hd⟩ := h.dates dk hdk heq
      exact ⟨krd', List.mem_append_left _ hk, hd⟩
  · intro krd' hk
    rw [hkrds, List.mem_append, List.mem_singleton] at hk
    rcases hk with hk | rfl
    · exact h.starts krd' hk
    · rcases h.last with ⟨hzero, -⟩ | ⟨dk, hdk, hs⟩
      · exact absurd hzero hne
      · exact ⟨dk, hdk, hs.trans hdate.symm⟩

@[simp] theorem lastCherryPickDate_addDenom :
    (b.addDenom e dk).lastCherryPickDate = b.lastCherryPickDate := by
  show (b.findGroup dk.group).1.lastCherryPickDate = _
  unfold KeysBuild.findGroup
  split <;> rfl

@[simp] theorem krdArray_addDenom : (b.addDenom e dk).krdArray = b.krdArray := by
  show (b.findGroup dk.group).1.krdArray = _
  unfold KeysBuild.findGroup
  split <;> rfl

/-- The keys from the last start on are those seen. -/
theorem LoopInv.filter_perm {rest : List OfferedDenomination} (h : LoopInv e recoup all seen b)
    (hall : all = seen ++ rest) (hrest : ∀ dk ∈ rest, dk.start < b.lastCherryPickDate) :
    (all.filter fun dk => b.lastCherryPickDate ≤ dk.start).Perm seen := by
  have hs : seen.filter (fun dk => b.lastCherryPickDate ≤ dk.start) = seen :=
    List.filter_eq_self.mpr fun dk hdk => decide_eq_true (h.low dk hdk)
  have hr : rest.filter (fun dk => b.lastCherryPickDate ≤ dk.start) = [] :=
    List.filter_eq_nil_iff.mpr fun dk hdk => by simpa using hrest dk hdk
  rw [hall, List.filter_append, hs, hr, List.append_nil]

/-- **One key from the heap.** -/
theorem LoopInv.step {rest : List OfferedDenomination} (h : LoopInv e recoup all seen b)
    (hall : all = seen ++ dk :: rest) (hlow : ∀ k ∈ seen, dk.start ≤ k.start)
    (hrest : ∀ k ∈ rest, k.start ≤ dk.start) (hstep : finishStep e recoup b dk = some b') :
    LoopInv e recoup all (seen ++ [dk]) b' := by
  obtain ⟨b₁, hb₁, rfl⟩ := Option.map_eq_some_iff.mp hstep
  have hlow' : ∀ k ∈ seen ++ [dk], dk.start ≤ k.start := by
    intro k hk
    rcases List.mem_append.mp hk with hk | hk
    · exact hlow k hk
    · rw [List.mem_singleton.mp hk]
  have hmem : dk ∈ seen ++ [dk] := List.mem_append_right _ (List.mem_singleton.mpr rfl)
  split_ifs at hb₁ with hnew
  · -- the start changes: all keys of the last one have been seen
    have hlt : dk.start < b.lastCherryPickDate := by
      rcases h.last with ⟨hzero, -⟩ | ⟨k, hk, hs⟩
      · exact absurd hzero hnew.2
      · exact lt_of_le_of_ne (hs ▸ hlow k hk) (Ne.symm hnew.1)
    have hp := h.filter_perm hall fun k hk => by
      rcases List.mem_cons.mp hk with rfl | hk
      · exact hlt
      · exact (hrest k hk).trans_lt hlt
    obtain ⟨hf, hlast⟩ := h.flush hnew.2 hp hb₁
    refine ⟨(hf.built.setDate _).addDenom, ?_, ?_, ?_, ?_, ?_, ?_, ?_⟩
    · rwa [lastCherryPickDate_addDenom]
    · rw [lastCherryPickDate_addDenom]
      exact Or.inr ⟨dk, hmem, rfl⟩
    · rw [krdArray_addDenom]
      exact hf.responses
    · rw [krdArray_addDenom, lastCherryPickDate_addDenom]
      exact fun krd hk => hlt.trans_le (hlast ▸ hf.atLeast krd hk)
    · rw [krdArray_addDenom]
      exact hf.descending
    · rw [krdArray_addDenom, lastCherryPickDate_addDenom]
      intro k hk hne
      rcases List.mem_append.mp hk with hk | hk
      · exact hf.dates k hk
      · exact absurd (congrArg _ (List.mem_singleton.mp hk)) hne
    · rw [krdArray_addDenom]
      intro krd hk
      obtain ⟨k, hk', hs⟩ := hf.starts krd hk
      exact ⟨k, List.mem_append_left _ hk', hs⟩
  · cases hb₁
    -- the start stays, or this is the first key
    have hlast : b.lastCherryPickDate = dk.start ∨ seen = [] := by
      rcases h.last with ⟨-, hnil⟩ | ⟨k, -, hs⟩
      · exact Or.inr hnil
      · refine Or.inl ?_
        by_contra hne
        exact hnew ⟨hne, hs ▸ k.start_ne⟩
    have habove : ∀ krd ∈ b.krdArray, dk.start < krd.cherryPickDate := by
      intro krd hk
      rcases hlast with he | hnil
      · exact he ▸ h.above krd hk
      · obtain ⟨k, hk', -⟩ := h.starts krd hk
        rw [hnil] at hk'
        cases hk'
    refine ⟨(h.built.setDate _).addDenom, ?_, ?_, ?_, ?_, ?_, ?_, ?_⟩
    · rwa [lastCherryPickDate_addDenom]
    · rw [lastCherryPickDate_addDenom]
      exact Or.inr ⟨dk, hmem, rfl⟩
    · rw [krdArray_addDenom]
      exact h.responses
    · rwa [krdArray_addDenom, lastCherryPickDate_addDenom]
    · rw [krdArray_addDenom]
      exact h.descending
    · rw [krdArray_addDenom, lastCherryPickDate_addDenom]
      intro k hk hne
      rcases List.mem_append.mp hk with hk | hk
      · rcases hlast with he | hnil
        · exact h.dates k hk (he ▸ hne)
        · rw [hnil] at hk
          cases hk
      · exact absurd (congrArg _ (List.mem_singleton.mp hk)) hne
    · rw [krdArray_addDenom]
      intro krd hk
      obtain ⟨k, hk', hs⟩ := h.starts krd hk
      exact ⟨k, List.mem_append_left _ hk', hs⟩

/-- **The whole loop.** -/
theorem LoopInv.loop {rest : List OfferedDenomination} (h : LoopInv e recoup all seen b)
    (hall : all = seen ++ rest) (hsort : all.Pairwise fun a b => b.start ≤ a.start)
    (hrun : rest.foldlM (finishStep e recoup) b = some b') : LoopInv e recoup all all b' := by
  induction rest generalizing seen b with
  | nil =>
    cases hrun
    rw [List.append_nil] at hall
    exact hall ▸ h
  | cons dk rest ih =>
    rw [List.foldlM_cons] at hrun
    obtain ⟨b₁, hb₁, hrun⟩ := Option.bind_eq_some_iff.mp hrun
    have hsort' := hall ▸ hsort
    rw [List.pairwise_append] at hsort'
    have hstep := h.step hall (fun k hk => hsort'.2.2 k hk dk List.mem_cons_self)
      (List.pairwise_cons.mp hsort'.2.1).1 hb₁
    refine ih hstep ?_ hrun
    rw [List.append_assoc]
    exact hall

/-- The whole array is made of the keys in the heap. -/
theorem finishKeysResponse_flushed {krds : List KeysResponseData}
    (h : finishKeysResponse heap e keys = .ok krds) :
    ∃ b, krds = b.krdArray ∧ Flushed e (recoupKeys e keys) (heap.drain (currentKeys keys))
      (heap.drain (currentKeys keys)) b := by
  unfold finishKeysResponse at h
  split_ifs at h
  split at h
  · cases h
  · next b hb =>
    have hinv := (loopInv_empty e (recoupKeys e keys) (heap.drain (currentKeys keys))).loop rfl
      (heap.sorted _) hb
    split_ifs at h with hzero
    · cases h
      -- a heap that was empty: there are no responses
      have hnil : heap.drain (currentKeys keys) = [] := by
        rcases hinv.last with ⟨-, hnil⟩ | ⟨dk, -, hs⟩
        · exact hnil
        · exact absurd (hs.trans hzero) dk.start_ne
      refine ⟨b, rfl, hinv.built, hinv.responses, fun krd hk => (hinv.above krd hk).le, hinv.descending,
        fun dk hdk => ?_, hinv.starts⟩
      rw [hnil] at hdk
      cases hdk
    · split at h
      · cases h
      · next b' hc =>
        split_ifs at h
        cases h
        have hp := hinv.filter_perm (List.append_nil _).symm fun _ hk => absurd hk List.not_mem_nil
        exact ⟨b', rfl, (hinv.flush hzero hp hc).1⟩

/-! ## A request finds its response -/

theorem bisects_krds {krds : List KeysResponseData}
    (h : krds.Pairwise fun a b => b.cherryPickDate < a.cherryPickDate) :
    krds.Pairwise (Bisects (krdSearchComparator d)) := by
  refine h.imp fun {a c} hlt => ⟨fun ha => ?_, fun hc => ?_⟩
  · unfold krdSearchComparator at *
    split_ifs at ha with h₁ h₂
    rw [if_pos (by omega)]
  · unfold krdSearchComparator at *
    split_ifs at hc with h₁ h₂
    rw [if_neg (by omega), if_pos (by omega)]

theorem krdSearchComparator_eq {krd : KeysResponseData} :
    krdSearchComparator d krd = .eq ↔ krd.cherryPickDate = d := by
  unfold krdSearchComparator
  split_ifs with h₁ h₂
  · simp only [false_iff]
    omega
  · simp only [false_iff]
    omega
  · simp only [true_iff]
    omega

theorem krd?_keysReply {krds : List KeysResponseData} {krd : KeysResponseData} {overloaded : Bool}
    {etag : Option HashCode} (hne : krds ≠ [])
    (h : (bsearch (krdSearchComparator d) krds).or krds.getLast? = some krd) :
    (keysReply overloaded krds etag d).krd? = some krd := by
  unfold keysReply
  rw [if_neg hne, h]
  dsimp only
  split_ifs <;> rfl

/-- **A date with a response**: the search finds it. -/
theorem keysReply_of_mem {krds : List KeysResponseData} {krd : KeysResponseData} {overloaded : Bool}
    {etag : Option HashCode} (h : krds.Pairwise fun a b => b.cherryPickDate < a.cherryPickDate)
    (hk : krd ∈ krds) : (keysReply overloaded krds etag krd.cherryPickDate).krd? = some krd := by
  refine krd?_keysReply (List.ne_nil_of_mem hk) ?_
  cases hb : bsearch (krdSearchComparator krd.cherryPickDate) krds with
  | none =>
    exact absurd (krdSearchComparator_eq.mpr rfl) ((bsearch_eq_none_iff (bisects_krds h)).mp hb krd hk)
  | some krd' =>
    obtain ⟨hk', hd⟩ := bsearch_sound hb
    have hdate := krdSearchComparator_eq.mp hd
    obtain ⟨i, hi, rfl⟩ := List.mem_iff_getElem.mp hk
    obtain ⟨j, hj, rfl⟩ := List.mem_iff_getElem.mp hk'
    rcases Nat.lt_trichotomy i j with hlt | rfl | hgt
    · exact absurd hdate (List.pairwise_iff_getElem.mp h i j hi hj hlt).ne
    · rfl
    · exact absurd hdate.symm (List.pairwise_iff_getElem.mp h j i hj hi hgt).ne

/-- **Any other date**: the last response is sent. -/
theorem keysReply_of_not_mem {krds : List KeysResponseData} {overloaded : Bool}
    {etag : Option HashCode} (h : krds.Pairwise fun a b => b.cherryPickDate < a.cherryPickDate)
    (hne : krds ≠ []) (hd : ∀ krd ∈ krds, krd.cherryPickDate ≠ d) :
    (keysReply overloaded krds etag d).krd? = some (krds.getLast hne) := by
  refine krd?_keysReply hne ?_
  rw [(bsearch_eq_none_iff (bisects_krds h)).mpr fun krd hk he =>
    hd krd hk (krdSearchComparator_eq.mp he), Option.none_or]
  exact List.getLast?_eq_some_getLast hne

/-! ## Nothing fails -/

/-- The wire state and the signing keys are there, signing succeeds, and age restriction is enabled if and
only if there is a denomination with it. -/
structure KeysEnv.Ready (e : KeysEnv) (keys : List OfferedDenomination) : Prop where
  wire : e.wireReady = true
  accounts : e.accounts ≠ 0
  signkeys : e.signkeys ≠ 0
  signs : ∀ d h, e.sign d h ≠ none
  ages : e.ageRestrictionEnabled = true ↔ ∃ dk ∈ currentKeys keys, dk.denomPub.ageMask ≠ 0

/-- The groups are those of keys, and age restriction is remembered. -/
structure Aged (seen : List OfferedDenomination) (b : KeysBuild) : Prop where
  groups : ∀ m off, (m, off) ∈ b.denominationsByGroup → ∃ dk ∈ seen, dk.group = m
  aged : b.hasAgeRestrictedDenomination = true ↔ ∃ dk ∈ seen, dk.denomPub.ageMask ≠ 0

theorem Aged.addDenom (h : Aged seen b) : Aged (seen ++ [dk]) (b.addDenom e dk) := by
  have hmem : dk ∈ seen ++ [dk] := List.mem_append_right _ (List.mem_singleton.mpr rfl)
  have hsome : (∃ k ∈ seen ++ [dk], k.denomPub.ageMask ≠ 0) ↔
      (∃ k ∈ seen, k.denomPub.ageMask ≠ 0) ∨ dk.denomPub.ageMask ≠ 0 := by
    simp only [List.mem_append, List.mem_singleton, or_and_right, exists_or, exists_eq_left]
  constructor
  · show ∀ m off, (m, off) ∈ (b.findGroup dk.group).1.denominationsByGroup → _
    intro m off hm
    unfold KeysBuild.findGroup at hm
    split at hm
    · obtain ⟨k, hk, hg⟩ := h.groups m off hm
      exact ⟨k, List.mem_append_left _ hk, hg⟩
    · rcases List.mem_cons.mp hm with heq | hm
      · cases heq
        exact ⟨dk, hmem, rfl⟩
      · obtain ⟨k, hk, hg⟩ := h.groups m off hm
        exact ⟨k, List.mem_append_left _ hk, hg⟩
  · show (b.findGroup dk.group).1.hasAgeRestrictedDenomination = true ↔ _
    rw [hsome, ← h.aged]
    unfold KeysBuild.findGroup
    split
    · next off hl =>
      -- the group is known, and so is its age mask
      refine ⟨Or.inl, fun ho => ho.elim id fun hne => ?_⟩
      obtain ⟨l₁, l₂, hsplit, -⟩ := List.lookup_eq_some_iff.mp hl
      obtain ⟨k, hk, hg⟩ := h.groups dk.group off (by
        rw [hsplit]
        exact List.mem_append_right _ List.mem_cons_self)
      exact h.aged.mpr ⟨k, hk, (congrArg DenominationGroup.ageMask hg).trans_ne hne⟩
    · simp only [Bool.or_eq_true, decide_eq_true_eq]
      rfl

variable (recoup) in
theorem createKrd_of_signs (hs : ∀ d h, e.sign d h ≠ none) (b : KeysBuild) :
    ∃ b', createKrd e recoup b = some b' ∧ b'.denominationsByGroup = b.denominationsByGroup ∧
      b'.hasAgeRestrictedDenomination = b.hasAgeRestrictedDenomination := by
  obtain ⟨r, hr⟩ := Option.ne_none_iff_exists'.mp (hs b.lastCherryPickDate (computeMsigHash e b.sigCtx))
  exact ⟨_, Option.map_eq_some_iff.mpr ⟨r, hr, rfl⟩, rfl, rfl⟩

variable (recoup) in
theorem loop_of_signs (hs : ∀ d h, e.sign d h ≠ none) (rest : List OfferedDenomination)
    (h : Aged seen b) :
    ∃ b', rest.foldlM (finishStep e recoup) b = some b' ∧ Aged (seen ++ rest) b' := by
  induction rest generalizing seen b with
  | nil => exact ⟨b, rfl, (List.append_nil seen).symm ▸ h⟩
  | cons dk rest ih =>
    obtain ⟨b₁, hb₁, h₁⟩ : ∃ b₁, finishStep e recoup b dk = some b₁ ∧ Aged (seen ++ [dk]) b₁ := by
      unfold finishStep
      split_ifs
      · obtain ⟨b', hb', hd, ha⟩ := createKrd_of_signs recoup hs b
        rw [hb', Option.map_some]
        refine ⟨_, rfl, Aged.addDenom ⟨?_, ?_⟩⟩
        · exact hd ▸ h.groups
        · exact ha ▸ h.aged
      · exact ⟨_, rfl, Aged.addDenom ⟨h.groups, h.aged⟩⟩
    obtain ⟨b', hb', h'⟩ := ih h₁
    refine ⟨b', ?_, ?_⟩
    · rw [List.foldlM_cons, hb₁]
      exact hb'
    · rw [List.append_assoc] at h'
      exact h'

theorem finishKeysResponse_of_ready (heap : MaxHeap) (h : e.Ready keys) :
    ∃ krds, finishKeysResponse heap e keys = .ok krds := by
  have h₀ : Aged [] {} := ⟨fun _ _ hm => absurd hm List.not_mem_nil, by simp⟩
  obtain ⟨b, hb, haged⟩ := loop_of_signs (recoupKeys e keys) h.signs (heap.drain (currentKeys keys)) h₀
  unfold finishKeysResponse
  rw [h.wire, if_neg (by decide), if_neg h.accounts, if_neg h.signkeys, hb]
  dsimp only
  split_ifs with hzero
  · exact ⟨_, rfl⟩
  · obtain ⟨b', hb', -, ha⟩ := createKrd_of_signs (recoupKeys e keys) h.signs b
    have hage : b'.hasAgeRestrictedDenomination = e.ageRestrictionEnabled := by
      rw [ha, Bool.eq_iff_iff, haged.aged, h.ages, List.nil_append]
      simp only [(heap.perm _).mem_iff]
    rw [hb']
    dsimp only
    rw [if_pos hage]
    exact ⟨_, rfl⟩

end Built

/-! ## The result -/

theorem ExactResponse.congr {e : KeysEnv} {recoup : List HashCode} {l l' : List OfferedDenomination}
    {krd : KeysResponseData} (h : ExactResponse e l recoup krd) (hp : l.Perm l') :
    ExactResponse e l' recoup krd :=
  { h with listed := h.listed.trans ((hp.filter _).map _) }

theorem exactResponses_of_finishKeysResponse {heap : MaxHeap} {e : KeysEnv}
    {keys : List OfferedDenomination} {krds : List KeysResponseData}
    (h : finishKeysResponse heap e keys = .ok krds) : ExactResponses e keys krds := by
  obtain ⟨b, rfl, hf⟩ := finishKeysResponse_flushed h
  have hp := heap.perm (currentKeys keys)
  have hexact := fun krd hk => (hf.responses krd hk).congr hp
  refine ⟨hf.descending, fun d => ⟨?_, ?_⟩, hexact, fun krd hk overloaded etag =>
    keysReply_of_mem hf.descending hk, fun d hd hcur overloaded etag => ?_⟩
  · rintro ⟨krd, hk, rfl⟩
    obtain ⟨dk, hdk, hs⟩ := hf.starts krd hk
    exact ⟨dk, hp.mem_iff.mp hdk, hs⟩
  · rintro ⟨dk, hdk, rfl⟩
    exact hf.dates dk (hp.mem_iff.mpr hdk)
  · obtain ⟨dk, hdk⟩ := List.exists_mem_of_ne_nil _ hcur
    obtain ⟨krd, hk, -⟩ := hf.dates dk (hp.mem_iff.mpr hdk)
    have hne := List.ne_nil_of_mem hk
    refine ⟨_, List.getLast_mem hne, keysReply_of_not_mem hf.descending hne hd, ?_⟩
    -- the last response is that of the earliest start
    have hall : ((currentKeys keys).filter fun dk =>
        (b.krdArray.getLast hne).cherryPickDate ≤ dk.start) = currentKeys keys := by
      refine List.filter_eq_self.mpr fun k hk => decide_eq_true ?_
      obtain ⟨krd', hk', hs'⟩ := hf.dates k (hp.mem_iff.mpr hk)
      rw [← hs']
      rw [← List.dropLast_append_getLast hne] at hk'
      have hdesc := hf.descending
      rw [← List.dropLast_append_getLast hne, List.pairwise_append] at hdesc
      rcases List.mem_append.mp hk' with hk' | hk'
      · exact (hdesc.2.2 krd' hk' _ (List.mem_singleton.mpr rfl)).le
      · rw [List.mem_singleton.mp hk']
    have hlist := (hexact _ (List.getLast_mem hne)).listed
    rw [hall] at hlist
    exact hlist

/-- **Every response of `/keys` is exact**: there is one for each start of a key that is not revoked, from
the latest to the earliest; it lists the keys from its date on; it is sent for its date, and the one that
lists all keys for any other; and the client computes the hash and the date that have been signed. -/
theorem finishKeysResponse_exact (heap : MaxHeap) (e : KeysEnv) (keys : List OfferedDenomination) :
    (e.Ready keys → ∃ krds, finishKeysResponse heap e keys = .ok krds) ∧
      ∀ krds, finishKeysResponse heap e keys = .ok krds → ExactResponses e keys krds :=
  ⟨finishKeysResponse_of_ready heap, fun _ h => exactResponses_of_finishKeysResponse h⟩

end TalerExchange
