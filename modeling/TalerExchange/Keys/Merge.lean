import TalerExchange.Keys.Download
import TalerExchange.Machine.Word

/-!
# Responses are merged

A client merges one `/keys` response after the other: denominations it does not know are added,
the signatures of an auditor refer to denominations by their positions, and denominations on the
recoup list are marked.

* `parseJsonAuditor`, `mergeAuditor`, `decodeMerged`, `keysCompleted`: a response is merged;
* `listed`, `addGroups_eq`: the denominations of a response, and what is known after it;
* `DenomInv.add`: a denomination that is listed as before is not added twice;
* `foldl_markRevoked`: marks, where hashes differ;
* **`keysCompleted_consistent`**: the merged keys of a run are consistent if denominations are
  always listed in the same way.
-/

namespace TalerExchange

/-! ## Merging -/

/-- `struct TALER_EXCHANGE_AuditorDenominationInfo`. -/
structure AuditorDenomination where
  denomKeyOffset : ℕ
  auditorSig : Signature
deriving DecidableEq, Repr

/-- `struct TALER_EXCHANGE_AuditorInformation`. -/
structure AuditorInformation where
  auditorPub : ℕ
  auditorUrl : String
  denomKeys : List AuditorDenomination
deriving DecidableEq, Repr

/-- An auditor in a response; an entry may be malformed. -/
structure AuditorJson where
  auditorPub : ℕ
  auditorUrl : String
  denominationKeys : List (Option (HashCode × Signature))

/-- A response with its auditors. -/
structure KeysDocument where
  json : KeysJson
  auditors : List AuditorJson

/-- The denomination keys and the auditors in `struct TALER_EXCHANGE_Keys`, with
`auditors_size`. -/
structure MergedKeys where
  keys : ClientKeys := {}
  auditors : List AuditorInformation := []
  auditorsSize : ℕ := 0
deriving DecidableEq, Repr

/-- Why a response is not merged: `GNUNET_SYSERR`, or an assertion. -/
inductive MergeFailure
  | sysErr
  | assertion
deriving DecidableEq, Repr

section Merge

variable (e : KeysEnv) (valid : DenomPublicKey → Bool)
  (verify : String → HashCode → DenomPublicKey → ℕ → Signature → Bool)

/-- `TALER_auditor_denom_validity_verify`, on what an auditor signs of a denomination. -/
def auditorVerifies (url : String) (pub : ℕ) (dk : DenomPublicKey) (sig : Signature) : Bool :=
  verify url (e.denomPubHash dk.key) { dk with lost := false, revoked := false } pub sig

/-- The loop of `parse_json_auditor`. -/
def auditorEntries (dks : List DenomPublicKey) (url : String) (pub : ℕ) :
    List (Option (HashCode × Signature)) → Option (List AuditorDenomination)
  | [] => some []
  | none :: keys => auditorEntries dks url pub keys
  | some (denomH, sig) :: keys =>
    match dks.findIdx? fun dk => e.denomPubHash dk.key = denomH with
    | none => auditorEntries dks url pub keys
    | some off =>
      if (dks[off]?).any fun dk => auditorVerifies e verify url pub dk sig then
        (auditorEntries dks url pub keys).map (⟨off, sig⟩ :: ·)
      else none

/-- `parse_json_auditor`. -/
def parseJsonAuditor (dks : List DenomPublicKey) (a : AuditorJson) : Option AuditorInformation :=
  (auditorEntries e verify dks a.auditorUrl a.auditorPub a.denominationKeys).map fun l =>
    ⟨a.auditorPub, a.auditorUrl, l⟩

/-- The signatures for denominations without one are added. -/
def mergeEntries (old new : List AuditorDenomination) : List AuditorDenomination :=
  new.foldl (fun l en => if l.any fun x => x.denomKeyOffset = en.denomKeyOffset then l
    else l ++ [en]) old

/-- An auditor is merged into a known one with its key, or added. -/
def mergeAuditor (mk : MergedKeys) (ai : AuditorInformation) : Except MergeFailure MergedKeys :=
  match mk.auditors.findIdx? fun aix => aix.auditorPub = ai.auditorPub with
  | some j => .ok { mk with
      auditors := mk.auditors.modify j fun aix =>
        { aix with denomKeys := mergeEntries aix.denomKeys ai.denomKeys } }
  | none =>
    let size := if mk.auditorsSize = mk.auditors.length then mk.auditorsSize * 2 + 2
      else mk.auditorsSize
    if size > mk.auditors.length then
      .ok { mk with auditors := mk.auditors ++ [ai], auditorsSize := size }
    else .error .assertion

/-- One round of the loop over the auditors. -/
def addAuditor (mk : MergedKeys) (a : AuditorJson) : Except MergeFailure MergedKeys :=
  match parseJsonAuditor e verify mk.keys.denomKeys a with
  | none => .error .sysErr
  | some ai => mergeAuditor mk ai

/-- `decode_keys_json`, with the auditors. -/
def decodeMerged (mk : MergedKeys) (doc : KeysDocument) : Except MergeFailure MergedKeys :=
  match doc.json.denominations.foldlM (ClientKeys.addGroup valid) mk.keys with
  | none => .error .sysErr
  | some ks => do
    let mk ← doc.auditors.foldlM (addAuditor e verify) { mk with keys := ks }
    if signatureVerifies e doc.json then
      .ok { mk with keys := { mk.keys with
        denomKeys := doc.json.recoup.foldl (markRevoked e) mk.keys.denomKeys } }
    else .error .sysErr

/-- `keys_completed_cb`: what was known is copied, without room for more auditors. -/
def keysCompleted (prev : MergedKeys) (doc : KeysDocument) : Except MergeFailure MergedKeys :=
  decodeMerged e valid verify { prev with auditorsSize := 0 } doc

end Merge

/-! ## Denominations -/

/-- The denominations in the groups of a response. -/
def listed (valid : DenomPublicKey → Bool) (gs : List GroupJson) : List DenomPublicKey :=
  gs.flatMap fun g => match parseDenominationGroup g with
    | none => []
    | some m => g.denoms.filterMap (parseJsonDenomkey valid m)

section Denominations

variable {e : KeysEnv} {valid : DenomPublicKey → Bool} {ks ks' : ClientKeys}
  {L : List DenomPublicKey} {dk : DenomPublicKey}

theorem addDenoms_eq {m : DenominationGroup} {ds : List DenomJson}
    (h : ds.foldlM (fun ks d => (parseJsonDenomkey valid m d).map ks.add) ks = some ks') :
    ks' = (ds.filterMap (parseJsonDenomkey valid m)).foldl ClientKeys.add ks := by
  induction ds generalizing ks with
  | nil =>
    cases h
    rfl
  | cons d ds ih =>
    rw [List.foldlM_cons] at h
    obtain ⟨ks₁, h₁, h⟩ := Option.bind_eq_some_iff.mp h
    obtain ⟨dk, hdk, rfl⟩ := Option.map_eq_some_iff.mp h₁
    rw [List.filterMap_cons_some hdk, List.foldl_cons]
    exact ih h

/-- The denominations are added one after the other. -/
theorem addGroups_eq {gs : List GroupJson}
    (h : gs.foldlM (ClientKeys.addGroup valid) ks = some ks') :
    ks' = (listed valid gs).foldl ClientKeys.add ks := by
  induction gs generalizing ks with
  | nil =>
    cases h
    rfl
  | cons g gs ih =>
    rw [List.foldlM_cons] at h
    obtain ⟨ks₁, h₁, h⟩ := Option.bind_eq_some_iff.mp h
    obtain ⟨m, hm, h₁⟩ := Option.bind_eq_some_iff.mp h₁
    rw [listed, List.flatMap_cons, List.foldl_append, hm]
    rw [addDenoms_eq h₁] at h
    exact ih h

theorem not_revoked_of_listed {gs : List GroupJson} {x : DenomPublicKey}
    (h : x ∈ listed valid gs) : x.revoked = false := by
  obtain ⟨g, -, hx⟩ := List.mem_flatMap.mp h
  cases hm : parseDenominationGroup g with
  | none =>
    rw [hm] at hx
    cases hx
  | some m =>
    rw [hm] at hx
    obtain ⟨d, -, hd⟩ := List.mem_filterMap.mp hx
    obtain ⟨pub, -, hv⟩ := Option.bind_eq_some_iff.mp hd
    dsimp only at hv
    split_ifs at hv
    cases hv
    rfl

/-- Denominations with one hash are listed in one way. -/
def ListedAlike (e : KeysEnv) (L : List DenomPublicKey) : Prop :=
  ∀ x ∈ L, ∀ y ∈ L, e.denomPubHash x.key = e.denomPubHash y.key → x = y

/-- A denomination as it was listed. -/
def DenomPublicKey.asListed (dk : DenomPublicKey) : DenomPublicKey := { dk with revoked := false }

theorem asListed_eq_self (h : dk.revoked = false) : dk.asListed = dk := by
  cases dk
  cases h
  rfl

@[simp] theorem key_asListed (dk : DenomPublicKey) : dk.asListed.key = dk.key := rfl

/-- What is known when these denominations have been listed. -/
structure DenomInv (e : KeysEnv) (L : List DenomPublicKey) (ks : ClientKeys) : Prop where
  known : ∀ d ∈ ks.denomKeys, d.asListed ∈ L
  complete : ∀ x ∈ L, ∃ d ∈ ks.denomKeys, d.key = x.key
  nodup : (ks.denomKeys.map fun d => e.denomPubHash d.key).Nodup
  date : ks.lastDenomIssueDate = (ks.denomKeys.map DenomPublicKey.validFrom).foldl max 0

theorem DenomInv.empty (e : KeysEnv) : DenomInv e [] {} where
  known := nofun
  complete := nofun
  nodup := List.nodup_nil
  date := rfl

/-- One denomination is added: it is the same as a known one, or its hash is new. -/
theorem DenomInv.add (hL : ListedAlike e (L ++ [dk])) (hdk : dk.revoked = false)
    (h : DenomInv e L ks) : DenomInv e (L ++ [dk]) (ks.add dk) ∧
      ∃ new, (ks.add dk).denomKeys = ks.denomKeys ++ new ∧ ∀ d ∈ new, d.revoked = false := by
  have hlast : dk ∈ L ++ [dk] := List.mem_append_right _ (List.mem_singleton.mpr rfl)
  have hsame : ∀ d, denomsSame dk d = true ↔ d.asListed = dk := by
    intro d
    have hself := asListed_eq_self hdk
    unfold denomsSame
    rw [decide_eq_true_iff]
    change dk.asListed = d.asListed ↔ _
    rw [hself, eq_comm]
  unfold ClientKeys.add
  by_cases hany : ks.denomKeys.any (denomsSame dk) = true
  · obtain ⟨d, hd, hs⟩ := List.any_eq_true.mp hany
    rw [if_pos hany]
    refine ⟨⟨fun d' hd' => List.mem_append_left _ (h.known d' hd'), fun x hx => ?_, h.nodup,
      h.date⟩, [], (List.append_nil _).symm, nofun⟩
    rcases List.mem_append.mp hx with hx | hx
    · exact h.complete x hx
    · exact ⟨d, hd, by rw [List.mem_singleton.mp hx, ← (hsame d).mp hs, key_asListed]⟩
  · rw [if_neg hany]
    refine ⟨⟨fun d hd => ?_, fun x hx => ?_, ?_, ?_⟩, [dk], rfl, fun d hd => ?_⟩
    · rcases List.mem_append.mp hd with hd | hd
      · exact List.mem_append_left _ (h.known d hd)
      · rw [List.mem_singleton.mp hd, asListed_eq_self hdk]
        exact hlast
    · rcases List.mem_append.mp hx with hx | hx
      · obtain ⟨d, hd, hkey⟩ := h.complete x hx
        exact ⟨d, List.mem_append_left _ hd, hkey⟩
      · exact ⟨dk, List.mem_append_right _ (List.mem_singleton.mpr rfl),
          by rw [List.mem_singleton.mp hx]⟩
    · -- A known denomination with its hash would have been found.
      rw [List.map_append, List.map_singleton]
      refine List.nodup_append_comm.mp (List.nodup_cons.mpr ⟨fun hmem => hany ?_, h.nodup⟩)
      obtain ⟨d, hd, hhash⟩ := List.mem_map.mp hmem
      have heq := hL d.asListed (List.mem_append_left _ (h.known d hd)) dk hlast hhash
      exact List.any_eq_true.mpr ⟨d, hd, (hsame d).mpr heq⟩
    · rw [List.map_append, List.foldl_append, ← h.date]
      rfl
    · rw [List.mem_singleton.mp hd, hdk]

theorem ListedAlike.of_append {L' : List DenomPublicKey} (h : ListedAlike e (L ++ L')) :
    ListedAlike e L :=
  fun x hx y hy => h x (List.mem_append_left _ hx) y (List.mem_append_left _ hy)

theorem DenomInv.addAll {new : List DenomPublicKey} (hL : ListedAlike e (L ++ new))
    (hnew : ∀ x ∈ new, x.revoked = false) (h : DenomInv e L ks) :
    DenomInv e (L ++ new) (new.foldl ClientKeys.add ks) ∧
      ∃ added, (new.foldl ClientKeys.add ks).denomKeys = ks.denomKeys ++ added ∧
        ∀ d ∈ added, d.revoked = false := by
  induction new generalizing L ks with
  | nil =>
    rw [List.append_nil]
    exact ⟨h, [], (List.append_nil _).symm, nofun⟩
  | cons dk new ih =>
    rw [List.append_cons] at hL ⊢
    rw [List.foldl_cons]
    obtain ⟨hadd, new₁, hnew₁, hrev₁⟩ := h.add hL.of_append (hnew dk List.mem_cons_self)
    obtain ⟨hall, new₂, hnew₂, hrev₂⟩ :=
      ih hL (fun x hx => hnew x (List.mem_cons_of_mem _ hx)) hadd
    refine ⟨hall, new₁ ++ new₂, by rw [hnew₂, hnew₁, List.append_assoc], fun d hd => ?_⟩
    rcases List.mem_append.mp hd with hd | hd
    · exact hrev₁ d hd
    · exact hrev₂ d hd

/-! ## Marks -/

/-- The denomination with a mark, if its hash is among these. -/
def DenomPublicKey.marked (e : KeysEnv) (hs : List HashCode) (dk : DenomPublicKey) :
    DenomPublicKey :=
  if e.denomPubHash dk.key ∈ hs then { dk with revoked := true } else dk

@[simp] theorem key_marked (hs : List HashCode) (dk : DenomPublicKey) :
    (dk.marked e hs).key = dk.key := by
  unfold DenomPublicKey.marked
  split_ifs <;> rfl

@[simp] theorem asListed_marked (hs : List HashCode) (dk : DenomPublicKey) :
    (dk.marked e hs).asListed = dk.asListed := by
  unfold DenomPublicKey.marked
  split_ifs <;> rfl

theorem revoked_marked (hs : List HashCode) (dk : DenomPublicKey) :
    (dk.marked e hs).revoked = true ↔ dk.revoked = true ∨ e.denomPubHash dk.key ∈ hs := by
  unfold DenomPublicKey.marked
  split_ifs with h
  · exact iff_of_true rfl (Or.inr h)
  · exact ⟨Or.inl, fun h' => h'.resolve_right h⟩

theorem marked_marked (h : HashCode) (hs : List HashCode) (dk : DenomPublicKey) :
    (dk.marked e [h]).marked e hs = dk.marked e (h :: hs) := by
  unfold DenomPublicKey.marked
  simp only [List.mem_cons, List.not_mem_nil, or_false]
  split_ifs <;> first | rfl | simp_all

theorem markRevoked_eq (h : HashCode) {l : List DenomPublicKey}
    (hl : (l.map fun d => e.denomPubHash d.key).Nodup) :
    markRevoked e l h = l.map (DenomPublicKey.marked e [h]) := by
  induction l with
  | nil => rfl
  | cons d l ih =>
    rw [List.map_cons, List.nodup_cons] at hl
    have ih := ih hl.2
    unfold markRevoked at ih ⊢
    rw [List.findIdx?_cons, List.map_cons]
    by_cases hd : e.denomPubHash d.key = h
    · have hrest : l.map (DenomPublicKey.marked e [h]) = l := by
        refine (List.map_congr_left fun d' hd' => if_neg fun hmem => ?_).trans (List.map_id l)
        exact hl.1 (List.mem_map.mpr ⟨d', hd', (List.mem_singleton.mp hmem).trans hd.symm⟩)
      rw [if_pos (decide_eq_true hd), hrest, DenomPublicKey.marked,
        if_pos (List.mem_singleton.mpr hd)]
      rfl
    · rw [if_neg (by simpa using hd), DenomPublicKey.marked,
        if_neg fun hmem => hd (List.mem_singleton.mp hmem), ← ih]
      cases l.findIdx? fun dk => decide (e.denomPubHash dk.key = h) with
      | none => rfl
      | some i => rfl

/-- Where hashes differ, all denominations on the list are marked. -/
theorem foldl_markRevoked (hs : List HashCode) {l : List DenomPublicKey}
    (hl : (l.map fun d => e.denomPubHash d.key).Nodup) :
    hs.foldl (markRevoked e) l = l.map (DenomPublicKey.marked e hs) := by
  induction hs generalizing l with
  | nil => exact (List.map_id l).symm
  | cons h hs ih =>
    have hmap : ((l.map (DenomPublicKey.marked e [h])).map fun d => e.denomPubHash d.key) =
        l.map fun d => e.denomPubHash d.key := by
      rw [List.map_map]
      exact List.map_congr_left fun d _ => congrArg e.denomPubHash (key_marked [h] d)
    rw [List.foldl_cons, markRevoked_eq h hl, ih (hmap ▸ hl), List.map_map]
    exact List.map_congr_left fun d _ => marked_marked h hs d

theorem DenomInv.mark (hs : List HashCode) (h : DenomInv e L ks) :
    DenomInv e L { ks with denomKeys := ks.denomKeys.map (DenomPublicKey.marked e hs) } where
  known d hd := by
    obtain ⟨d', hd', rfl⟩ := List.mem_map.mp hd
    rw [asListed_marked]
    exact h.known d' hd'
  complete x hx := by
    obtain ⟨d, hd, hkey⟩ := h.complete x hx
    exact ⟨_, List.mem_map_of_mem hd, (key_marked hs d).trans hkey⟩
  nodup := by
    rw [List.map_map]
    exact (List.map_congr_left fun d _ => congrArg e.denomPubHash (key_marked hs d)) ▸ h.nodup
  date := by
    rw [List.map_map, h.date]
    refine congrArg (List.foldl max 0) (List.map_congr_left fun d _ => ?_)
    exact (congrArg DenomPublicKey.validFrom (asListed_marked hs d)).symm

end Denominations

/-! ## Auditors -/

/-- The denominations keep their places. -/
def KeepsPlaces (l l' : List DenomPublicKey) : Prop :=
  ∀ (i : ℕ) (d : DenomPublicKey), l[i]? = some d →
    ∃ d', l'[i]? = some d' ∧ d'.asListed = d.asListed

theorem keepsPlaces_append (l new : List DenomPublicKey) : KeepsPlaces l (l ++ new) := by
  intro i d hd
  have hi := (List.getElem?_eq_some_iff.mp hd).1
  exact ⟨d, by rw [List.getElem?_append_left hi, hd], rfl⟩

theorem keepsPlaces_map {e : KeysEnv} (hs : List HashCode) (l : List DenomPublicKey) :
    KeepsPlaces l (l.map (DenomPublicKey.marked e hs)) := by
  intro i d hd
  exact ⟨d.marked e hs, by rw [List.getElem?_map, hd, Option.map_some], asListed_marked hs d⟩

section Auditors

variable {e : KeysEnv} {verify : String → HashCode → DenomPublicKey → ℕ → Signature → Bool}
  {docs : List KeysDocument} {dks dks' : List DenomPublicKey} {mk mk' : MergedKeys}

/-- A signature came for the denomination at its offset, which it is valid for. -/
def SignedAt (e : KeysEnv) (verify : String → HashCode → DenomPublicKey → ℕ → Signature → Bool)
    (docs : List KeysDocument) (dks : List DenomPublicKey) (pub : ℕ)
    (en : AuditorDenomination) : Prop :=
  ∃ doc ∈ docs, ∃ a ∈ doc.auditors, a.auditorPub = pub ∧
    ∃ dk, dks[en.denomKeyOffset]? = some dk ∧
      some (e.denomPubHash dk.key, en.auditorSig) ∈ a.denominationKeys ∧
      auditorVerifies e verify a.auditorUrl pub dk en.auditorSig = true

theorem auditorVerifies_congr {url : String} {pub : ℕ} {d d' : DenomPublicKey} {sig : Signature}
    (h : d'.asListed = d.asListed) :
    auditorVerifies e verify url pub d' sig = auditorVerifies e verify url pub d sig := by
  have hverify := congrArg (fun x => auditorVerifies e verify url pub x sig) h
  exact hverify

theorem SignedAt.mono {docs' : List KeysDocument} (hdocs : ∀ doc ∈ docs, doc ∈ docs')
    (hplaces : KeepsPlaces dks dks') {pub : ℕ} {en : AuditorDenomination}
    (h : SignedAt e verify docs dks pub en) : SignedAt e verify docs' dks' pub en := by
  obtain ⟨doc, hdoc, a, ha, hpub, d, hd, hmem, hverify⟩ := h
  obtain ⟨d', hd', heq⟩ := hplaces _ d hd
  refine ⟨doc, hdocs doc hdoc, a, ha, hpub, d', hd', ?_, ?_⟩
  · rw [(key_asListed d').symm.trans ((congrArg DenomPublicKey.key heq).trans (key_asListed d))]
    exact hmem
  · rw [auditorVerifies_congr heq]
    exact hverify

theorem auditorEntries_sound {url : String} {pub : ℕ} {keys : List (Option (HashCode × Signature))}
    {l : List AuditorDenomination} (h : auditorEntries e verify dks url pub keys = some l) :
    ∀ en ∈ l, ∃ dk, dks[en.denomKeyOffset]? = some dk ∧
      some (e.denomPubHash dk.key, en.auditorSig) ∈ keys ∧
      auditorVerifies e verify url pub dk en.auditorSig = true := by
  induction keys generalizing l with
  | nil =>
    cases h
    nofun
  | cons key keys ih =>
    have hskip : auditorEntries e verify dks url pub keys = some l → ∀ en ∈ l, ∃ dk,
        dks[en.denomKeyOffset]? = some dk ∧
          some (e.denomPubHash dk.key, en.auditorSig) ∈ key :: keys ∧
          auditorVerifies e verify url pub dk en.auditorSig = true := by
      intro hrest en hen
      obtain ⟨dk, hdk, hmem, hverify⟩ := ih hrest en hen
      exact ⟨dk, hdk, List.mem_cons_of_mem _ hmem, hverify⟩
    rcases key with _ | ⟨denomH, sig⟩
    · exact hskip h
    rw [auditorEntries] at h
    cases hfind : dks.findIdx? fun dk => decide (e.denomPubHash dk.key = denomH) with
    | none =>
      rw [hfind] at h
      exact hskip h
    | some off =>
      rw [hfind] at h
      dsimp only at h
      split_ifs at h with hverify
      obtain ⟨rest, hrest, rfl⟩ := Option.map_eq_some_iff.mp h
      obtain ⟨hlt, hhash, -⟩ := List.findIdx?_eq_some_iff_getElem.mp hfind
      rw [List.getElem?_eq_getElem hlt, Option.any_some] at hverify
      intro en hen
      rcases List.mem_cons.mp hen with rfl | hen
      · refine ⟨dks[off], List.getElem?_eq_getElem hlt, ?_, hverify⟩
        rw [of_decide_eq_true hhash]
        exact List.mem_cons_self
      · obtain ⟨dk, hdk, hmem, hv⟩ := ih hrest en hen
        exact ⟨dk, hdk, List.mem_cons_of_mem _ hmem, hv⟩

theorem mem_mergeEntries {old new : List AuditorDenomination} {en : AuditorDenomination}
    (h : en ∈ mergeEntries old new) : en ∈ old ∨ en ∈ new := by
  unfold mergeEntries at h
  induction new generalizing old with
  | nil => exact Or.inl h
  | cons x new ih =>
    rw [List.foldl_cons] at h
    rcases ih h with hmem | hmem
    · split_ifs at hmem
      · exact Or.inl hmem
      · rcases List.mem_append.mp hmem with hmem | hmem
        · exact Or.inl hmem
        · exact Or.inr (List.mem_cons.mpr (Or.inl (List.mem_singleton.mp hmem)))
    · exact Or.inr (List.mem_cons_of_mem _ hmem)

/-- An auditor's signatures are those it had, and those of the one that is merged. -/
theorem mergeAuditor_sound {ai : AuditorInformation} (h : mergeAuditor mk ai = .ok mk') :
    mk'.keys = mk.keys ∧ ∀ a ∈ mk'.auditors, ∀ en ∈ a.denomKeys,
      (∃ a₀ ∈ mk.auditors, a₀.auditorPub = a.auditorPub ∧ en ∈ a₀.denomKeys) ∨
        (ai.auditorPub = a.auditorPub ∧ en ∈ ai.denomKeys) := by
  unfold mergeAuditor at h
  cases hfind : mk.auditors.findIdx? fun aix => decide (aix.auditorPub = ai.auditorPub) with
  | none =>
    rw [hfind] at h
    dsimp only at h
    split_ifs at h
    all_goals
      cases h
      refine ⟨rfl, fun a ha en hen => ?_⟩
      rcases List.mem_append.mp ha with ha | ha
      · exact Or.inl ⟨a, ha, rfl, hen⟩
      · rw [List.mem_singleton.mp ha] at hen ⊢
        exact Or.inr ⟨rfl, hen⟩
  | some j =>
    rw [hfind] at h
    cases h
    refine ⟨rfl, fun a ha en hen => ?_⟩
    obtain ⟨hlt, hpub, -⟩ := List.findIdx?_eq_some_iff_getElem.mp hfind
    obtain ⟨i, hi, rfl⟩ := List.mem_iff_getElem.mp ha
    rw [List.getElem_modify] at hen ⊢
    rw [List.length_modify] at hi
    split_ifs at hen ⊢ with hji
    · subst hji
      rcases mem_mergeEntries hen with hen | hen
      · exact Or.inl ⟨_, List.getElem_mem hi, rfl, hen⟩
      · exact Or.inr ⟨(of_decide_eq_true hpub).symm, hen⟩
    · exact Or.inl ⟨_, List.getElem_mem hi, rfl, hen⟩

theorem addAuditor_sound {a : AuditorJson} {doc : KeysDocument} (hdoc : doc ∈ docs)
    (ha : a ∈ doc.auditors) (h : addAuditor e verify mk a = .ok mk')
    (hsigned : ∀ x ∈ mk.auditors, ∀ en ∈ x.denomKeys,
      SignedAt e verify docs mk.keys.denomKeys x.auditorPub en) :
    mk'.keys = mk.keys ∧ ∀ x ∈ mk'.auditors, ∀ en ∈ x.denomKeys,
      SignedAt e verify docs mk.keys.denomKeys x.auditorPub en := by
  unfold addAuditor at h
  cases hparse : parseJsonAuditor e verify mk.keys.denomKeys a with
  | none =>
    rw [hparse] at h
    cases h
  | some ai =>
    rw [hparse] at h
    obtain ⟨hkeys, hfrom⟩ := mergeAuditor_sound h
    refine ⟨hkeys, fun x hx en hen => ?_⟩
    rcases hfrom x hx en hen with ⟨x₀, hx₀, hpub, hen₀⟩ | ⟨hpub, hen'⟩
    · exact hpub ▸ hsigned x₀ hx₀ en hen₀
    · obtain ⟨l, hl, rfl⟩ := Option.map_eq_some_iff.mp hparse
      obtain ⟨dk, hdk, hmem, hverify⟩ := auditorEntries_sound hl en hen'
      exact ⟨doc, hdoc, a, ha, hpub, dk, hdk, hmem, hpub ▸ hverify⟩

theorem addAuditors_sound {as : List AuditorJson} {doc : KeysDocument} (hdoc : doc ∈ docs)
    (has : ∀ a ∈ as, a ∈ doc.auditors) (h : as.foldlM (addAuditor e verify) mk = .ok mk')
    (hsigned : ∀ x ∈ mk.auditors, ∀ en ∈ x.denomKeys,
      SignedAt e verify docs mk.keys.denomKeys x.auditorPub en) :
    mk'.keys = mk.keys ∧ ∀ x ∈ mk'.auditors, ∀ en ∈ x.denomKeys,
      SignedAt e verify docs mk.keys.denomKeys x.auditorPub en := by
  induction as generalizing mk with
  | nil =>
    cases h
    exact ⟨rfl, hsigned⟩
  | cons a as ih =>
    rw [List.foldlM_cons] at h
    obtain ⟨mk₁, h₁, h⟩ := bind_eq_ok.mp h
    obtain ⟨hkeys, hsigned₁⟩ := addAuditor_sound hdoc (has a List.mem_cons_self) h₁ hsigned
    have hrest := ih (fun a' ha' => has a' (List.mem_cons_of_mem _ ha')) h (by rwa [hkeys])
    rw [hkeys] at hrest
    exact hrest

end Auditors

/-! ## Runs -/

section Runs

variable {e : KeysEnv} {valid : DenomPublicKey → Bool}
  {verify : String → HashCode → DenomPublicKey → ℕ → Signature → Bool}
  {docs : List KeysDocument} {doc : KeysDocument} {mk mk' : MergedKeys}

/-- The denominations of some responses. -/
def listedBy (valid : DenomPublicKey → Bool) (docs : List KeysDocument) : List DenomPublicKey :=
  docs.flatMap fun doc => listed valid doc.json.denominations

/-- The flag in the last entry for a key. -/
def lastLost (valid : DenomPublicKey → Bool) (docs : List KeysDocument) (p : DenominationPub) :
    Option Bool :=
  ((listedBy valid docs).reverse.find? fun x => x.key = p).map DenomPublicKey.lost

/-- A response has the key on its recoup list, when it has been listed. -/
def RevokedBy (e : KeysEnv) (valid : DenomPublicKey → Bool) (docs : List KeysDocument)
    (p : DenominationPub) : Prop :=
  ∃ before doc after, docs = before ++ doc :: after ∧ e.denomPubHash p ∈ doc.json.recoup ∧
    ∃ x ∈ listedBy valid (before ++ [doc]), x.key = p

/-- Merged keys that agree with the responses they come from. -/
structure MergedConsistent (e : KeysEnv) (valid : DenomPublicKey → Bool)
    (verify : String → HashCode → DenomPublicKey → ℕ → Signature → Bool) (docs : List KeysDocument)
    (mk : MergedKeys) : Prop where
  nodup : (mk.keys.denomKeys.map DenomPublicKey.key).Nodup
  lost : ∀ dk ∈ mk.keys.denomKeys, lastLost valid docs dk.key = some dk.lost
  revoked : ∀ dk ∈ mk.keys.denomKeys, dk.revoked = true ↔ RevokedBy e valid docs dk.key
  auditors : ∀ a ∈ mk.auditors, ∀ en ∈ a.denomKeys,
    SignedAt e verify docs mk.keys.denomKeys a.auditorPub en
  date : mk.keys.lastDenomIssueDate =
    (mk.keys.denomKeys.map DenomPublicKey.validFrom).foldl max 0

/-- What is known after a run. -/
structure MergeInv (e : KeysEnv) (valid : DenomPublicKey → Bool)
    (verify : String → HashCode → DenomPublicKey → ℕ → Signature → Bool) (docs : List KeysDocument)
    (mk : MergedKeys) : Prop where
  denoms : DenomInv e (listedBy valid docs) mk.keys
  revoked : ∀ dk ∈ mk.keys.denomKeys, dk.revoked = true ↔ RevokedBy e valid docs dk.key
  auditors : ∀ a ∈ mk.auditors, ∀ en ∈ a.denomKeys,
    SignedAt e verify docs mk.keys.denomKeys a.auditorPub en

theorem listedBy_concat (docs : List KeysDocument) (doc : KeysDocument) :
    listedBy valid (docs ++ [doc]) =
      listedBy valid docs ++ listed valid doc.json.denominations := by
  unfold listedBy
  rw [List.flatMap_append, List.flatMap_singleton]

theorem revokedBy_concat {p : DenominationPub} : RevokedBy e valid (docs ++ [doc]) p ↔
    RevokedBy e valid docs p ∨ (e.denomPubHash p ∈ doc.json.recoup ∧
      ∃ x ∈ listedBy valid (docs ++ [doc]), x.key = p) := by
  constructor
  · rintro ⟨before, d, after, heq, hrecoup, hx⟩
    rcases List.eq_nil_or_concat after with rfl | ⟨after', d', rfl⟩
    · obtain ⟨rfl, hd⟩ := List.append_inj' heq rfl
      obtain rfl := List.singleton_inj.mp hd
      exact Or.inr ⟨hrecoup, hx⟩
    · have hsplit : docs ++ [doc] = (before ++ d :: after') ++ [d'] := by
        rw [heq, List.concat_eq_append, List.append_assoc, List.cons_append]
      exact Or.inl ⟨before, d, after', (List.append_inj' hsplit rfl).1, hrecoup, hx⟩
  · rintro (⟨before, d, after, rfl, hrecoup, hx⟩ | ⟨hrecoup, hx⟩)
    · exact ⟨before, d, after ++ [doc], List.append_assoc .., hrecoup, hx⟩
    · exact ⟨docs, doc, [], rfl, hrecoup, hx⟩

theorem RevokedBy.listed {p : DenominationPub} (h : RevokedBy e valid docs p) :
    ∃ x ∈ listedBy valid docs, x.key = p := by
  obtain ⟨before, doc, after, rfl, -, x, hx, hkey⟩ := h
  refine ⟨x, ?_, hkey⟩
  unfold listedBy at hx ⊢
  rw [List.append_cons, List.flatMap_append]
  exact List.mem_append_left _ hx

/-- Before the marks, a denomination is marked just if a response before has revoked it. -/
theorem MergeInv.revoked_added (h : MergeInv e valid verify docs mk) {ks : ClientKeys}
    {L added : List DenomPublicKey} (hks : DenomInv e L ks)
    (hadded : ks.denomKeys = mk.keys.denomKeys ++ added) (hnew : ∀ d ∈ added, d.revoked = false)
    {dk : DenomPublicKey} (hdk : dk ∈ ks.denomKeys) :
    dk.revoked = true ↔ RevokedBy e valid docs dk.key := by
  rw [hadded] at hdk
  rcases List.mem_append.mp hdk with hdk | hdk
  · exact h.revoked dk hdk
  · refine iff_of_false (by rw [hnew dk hdk]; exact Bool.false_ne_true) fun hrev => ?_
    obtain ⟨x, hx, hkey⟩ := hrev.listed
    obtain ⟨d, hd, hd'⟩ := h.denoms.complete x hx
    have hnodup := hks.nodup
    rw [hadded, List.map_append] at hnodup
    refine List.disjoint_of_nodup_append hnodup (List.mem_map_of_mem hd) ?_
    rw [hd', hkey]
    exact List.mem_map_of_mem hdk

/-- One response is merged. -/
theorem MergeInv.step (h : MergeInv e valid verify docs mk)
    (hL : ListedAlike e (listedBy valid (docs ++ [doc])))
    (hrun : keysCompleted e valid verify mk doc = .ok mk') :
    MergeInv e valid verify (docs ++ [doc]) mk' := by
  unfold keysCompleted decodeMerged at hrun
  cases hdenoms : doc.json.denominations.foldlM (ClientKeys.addGroup valid) mk.keys with
  | none =>
    simp only [hdenoms] at hrun
    cases hrun
  | some ks =>
    simp only [hdenoms] at hrun
    obtain ⟨mk₁, hauditors, hrun⟩ := bind_eq_ok.mp hrun
    rw [listedBy_concat] at hL
    obtain ⟨hks, added, hadded, hnew⟩ :=
      h.denoms.addAll hL fun x hx => not_revoked_of_listed hx
    rw [← addGroups_eq hdenoms] at hks hadded
    have hdoc : doc ∈ docs ++ [doc] := List.mem_append_right _ (List.mem_singleton.mpr rfl)
    have hplaces : KeepsPlaces mk.keys.denomKeys ks.denomKeys :=
      hadded ▸ keepsPlaces_append _ _
    have hbefore : ∀ a ∈ mk.auditors, ∀ en ∈ a.denomKeys,
        SignedAt e verify (docs ++ [doc]) ks.denomKeys a.auditorPub en := fun a ha en hen =>
      (h.auditors a ha en hen).mono (fun _ hd => List.mem_append_left _ hd) hplaces
    obtain ⟨hkeys, hsigned⟩ := addAuditors_sound hdoc (fun _ ha => ha) hauditors hbefore
    dsimp only at hkeys hsigned
    split_ifs at hrun
    cases hrun
    rw [hkeys, foldl_markRevoked _ hks.nodup]
    refine ⟨listedBy_concat docs doc ▸ hks.mark _, fun d hd => ?_, fun a ha en hen => ?_⟩
    · obtain ⟨dk, hdk, rfl⟩ := List.mem_map.mp hd
      rw [revoked_marked, key_marked, h.revoked_added hks hadded hnew hdk, revokedBy_concat,
        listedBy_concat]
      refine or_congr_right ⟨fun hrecoup => ⟨hrecoup, _, hks.known dk hdk, rfl⟩, fun hr => hr.1⟩
    · exact (hsigned a ha en hen).mono (fun _ hd => hd) (keepsPlaces_map _ _)

theorem MergeInv.empty : MergeInv e valid verify [] {} where
  denoms := DenomInv.empty e
  revoked := nofun
  auditors := nofun

theorem ListedAlike.consistent (hL : ListedAlike e (listedBy valid docs))
    (h : MergeInv e valid verify docs mk) : MergedConsistent e valid verify docs mk where
  nodup := by
    have hmap : (mk.keys.denomKeys.map fun d => e.denomPubHash d.key) =
        (mk.keys.denomKeys.map DenomPublicKey.key).map e.denomPubHash := List.map_map.symm
    exact (hmap ▸ h.denoms.nodup).of_map _
  lost dk hdk := by
    have hmem := h.denoms.known dk hdk
    unfold lastLost
    cases hfind : (listedBy valid docs).reverse.find? fun x => decide (x.key = dk.key) with
    | none =>
      have hno := List.find?_eq_none.mp hfind dk.asListed (List.mem_reverse.mpr hmem)
      exact absurd (decide_eq_true rfl) hno
    | some x =>
      have hx := List.mem_reverse.mp (List.mem_of_find?_eq_some hfind)
      have hfound := List.find?_some hfind
      have hkey : x.key = dk.key := of_decide_eq_true hfound
      have heq := hL x hx dk.asListed hmem (congrArg e.denomPubHash hkey)
      rw [heq]
      rfl
  revoked := h.revoked
  auditors := h.auditors
  date := h.denoms.date

/-- **Merged keys are consistent** in every run in which denominations with one hash are always
listed in the same way, the lost flag included. -/
theorem keysCompleted_consistent (e : KeysEnv) (valid : DenomPublicKey → Bool)
    (verify : String → HashCode → DenomPublicKey → ℕ → Signature → Bool) (docs : List KeysDocument)
    (mk : MergedKeys) (hL : ListedAlike e (listedBy valid docs))
    (hrun : docs.foldlM (keysCompleted e valid verify) {} = .ok mk) :
    MergedConsistent e valid verify docs mk := by
  suffices h : MergeInv e valid verify docs mk from hL.consistent h
  induction docs using List.reverseRecOn generalizing mk with
  | nil =>
    cases hrun
    exact MergeInv.empty
  | append_singleton docs doc ih =>
    rw [List.foldlM_append] at hrun
    obtain ⟨mk₁, h₁, hrun⟩ := bind_eq_ok.mp hrun
    rw [List.foldlM_cons] at hrun
    obtain ⟨mk₂, h₂, hrun⟩ := bind_eq_ok.mp hrun
    cases hrun
    have hbefore := hL
    rw [listedBy_concat] at hbefore
    exact (ih mk₁ hbefore.of_append h₁).step hL h₂

end Runs

/-- A response with one denomination. -/
def oneDenomination (lost : Bool) : KeysDocument where
  json := {
    denominations := [⟨"RSA", [⟨7, lost, 10, 20, 30, 40, .rsaPub 7⟩],
      ⟨.zero, .zero, .zero, .zero⟩, .whole 1, none⟩]
    recoup := []
    listIssueDate := 0
    exchangePub := 1
    exchangeSig := 7 }
  auditors := []

theorem keysCompleted_consistent_twice : ∃ mk, [oneDenomination false, oneDenomination false].foldlM
    (keysCompleted readyEnv (fun _ => true) fun _ _ _ _ _ => true) {} = .ok mk ∧
      MergedConsistent readyEnv (fun _ => true) (fun _ _ _ _ _ => true)
        [oneDenomination false, oneDenomination false] mk := by
  obtain ⟨mk, hmk⟩ : ∃ mk, [oneDenomination false, oneDenomination false].foldlM
      (keysCompleted readyEnv (fun _ => true) fun _ _ _ _ _ => true) {} = .ok mk := ⟨_, rfl⟩
  refine ⟨mk, hmk, keysCompleted_consistent _ _ _ _ mk ?_ hmk⟩
  intro x hx y hy _
  have hsame : ∀ z ∈ listedBy (fun _ => true) [oneDenomination false, oneDenomination false],
      z = ⟨⟨0, .rsa, 7⟩, .whole 1, ⟨.zero, .zero, .zero, .zero⟩, 7, 10, 20, 30, 40, false,
        false⟩ := by decide
  rw [hsame x hx, hsame y hy]

/-- **A denomination whose flag changes is known twice.** -/
theorem not_mergedConsistent : ¬∀ (e : KeysEnv) (valid : DenomPublicKey → Bool)
    (verify : String → HashCode → DenomPublicKey → ℕ → Signature → Bool) (docs : List KeysDocument)
    (mk : MergedKeys), docs.foldlM (keysCompleted e valid verify) {} = .ok mk →
      MergedConsistent e valid verify docs mk := by
  intro hall
  obtain ⟨mk, hmk, hkeys⟩ : ∃ mk, [oneDenomination false, oneDenomination true].foldlM
      (keysCompleted readyEnv (fun _ => true) fun _ _ _ _ _ => true) {} = .ok mk ∧
        mk.keys.denomKeys.map DenomPublicKey.key = [⟨0, .rsa, 7⟩, ⟨0, .rsa, 7⟩] :=
    ⟨_, rfl, by decide⟩
  have hnodup := (hall _ _ _ _ mk hmk).nodup
  rw [hkeys] at hnodup
  exact absurd hnodup (by decide)

end TalerExchange
