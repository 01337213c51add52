import TalerExchange.Secmod.Service

/-!
# Revoked keys

A security module does not look at the mark of a revoked key when it is asked for a signature, and it
announces the marked key to new clients.

* `renewed_updateDenominations`, `refreshed_eddsaUpdateKeys`: what an update does to the keys;
* `mem_revoke`, `ok_revoke`: what a revocation does;
* `DenomService.Ok`, `EddsaService.Ok`: the invariants;
* **`revokedKeysDead_iff`**: revoked keys are dead as long as no request meets one, and no client connects
  while there is one that has not expired.
-/

namespace TalerExchange

open Transition

/-! ## Updates -/

section Rings

variable {d : KeyDurations} {now g : ℕ} {r : Keyring} {others : List KeyEntry}

/-- The keys of a ring, among others. -/
def Keyring.roster (d : KeyDurations) (others : List KeyEntry) (r : Keyring) : Roster :=
  ⟨r.keys.map d.entry ++ others, r.nextKey, r.keyGen⟩

/-- The generation is the next one as soon as clients are to be woken. -/
def Keyring.Woken (g : ℕ) (r : Keyring) : Prop := r.keyGen = if r.wake then g + 1 else g

theorem Keyring.Woken.bump (h : r.Woken g) : r.bump.Woken g := by
  unfold Keyring.bump
  cases hw : r.wake with
  | true => exact h
  | false =>
    unfold Keyring.Woken at h ⊢
    rw [hw] at h
    simp only [Bool.false_eq_true, if_false] at h ⊢
    rw [h]
    rfl

theorem Keyring.wake_bump (r : Keyring) : r.bump.wake = true := by
  unfold Keyring.bump
  split
  · assumption
  · rfl

theorem Keyring.keyGen_le_bump (r : Keyring) : r.keyGen ≤ r.bump.keyGen := by
  unfold Keyring.bump
  split
  · exact le_rfl
  · exact Nat.le_succ _

theorem renewed_bump (r : Keyring) : Renewed now g (r.roster d others) (r.bump.roster d others) := by
  unfold Keyring.roster
  rw [Keyring.keys_bump, Keyring.nextKey_bump]
  exact Renewed.of_perm (List.Perm.refl _) r.keyGen_le_bump

theorem renewed_createKey (hg : g < r.keyGen) :
    Renewed now g (r.roster d others) ((r.createKey d now).roster d others) := by
  unfold Keyring.roster Keyring.createKey
  dsimp only
  rw [List.map_append, List.map_singleton, List.append_assoc]
  exact Renewed.add (e := d.entry ⟨r.nextKey, d.newAnchor now r.keys.getLast?, r.keyGen, 0, false⟩)
    List.perm_middle rfl rfl hg le_rfl

/-- What the loop that creates keys does. -/
theorem renewed_createKeys (hr : r.Woken g) :
    Renewed now g (r.roster d others) ((r.createKeys d now).roster d others) ∧
      (r.createKeys d now).Woken g := by
  induction r using Keyring.createKeys.induct d now with
  | case1 r h ih =>
    rw [Keyring.createKeys, if_pos h]
    have hb := hr.bump
    have hgen : g < r.bump.keyGen := by
      unfold Keyring.Woken at hb
      rw [Keyring.wake_bump, if_pos rfl] at hb
      exact hb.symm ▸ Nat.lt_succ_self g
    obtain ⟨h1, h2⟩ := ih hb
    exact ⟨(renewed_bump r).trans ((renewed_createKey hgen).trans h1), h2⟩
  | case2 r h =>
    rw [Keyring.createKeys, if_neg h]
    exact ⟨Renewed.refl _ _ _, hr⟩

theorem mem_dropWhile_or {α : Type} {p : α → Bool} {xs : List α} {x : α} (h : x ∈ xs) :
    x ∈ xs.dropWhile p ∨ p x = true := by
  induction xs with
  | nil => exact absurd h List.not_mem_nil
  | cons y xs ih =>
    rw [List.dropWhile_cons]
    by_cases hy : p y = true
    · rw [if_pos hy]
      rcases List.mem_cons.1 h with rfl | h
      · exact Or.inr hy
      · exact ih h
    · rw [if_neg hy]
      exact Or.inl h

/-- Removing expired keys from a list. -/
theorem renewed_dropWhile (ks : List SecmodKey) (n gen : ℕ) :
    Renewed now g ⟨ks.map d.entry ++ others, n, gen⟩
      ⟨(ks.dropWhile fun k => d.expires k < now && k.rc == 0).map d.entry ++ others, n, gen⟩ := by
  refine Renewed.remove ?_ fun e he hnot => ?_
  · exact ((List.dropWhile_sublist _).map _).append (List.Sublist.refl _)
  · rcases List.mem_append.1 he with he | he
    · obtain ⟨k, hk, rfl⟩ := List.mem_map.1 he
      rcases mem_dropWhile_or hk with hk | hk
      · exact absurd (List.mem_append_left _ (List.mem_map_of_mem hk)) hnot
      · exact of_decide_eq_true (Bool.and_eq_true_iff.1 hk).1
    · exact absurd (List.mem_append_right _ he) hnot

theorem renewed_removeExpired (r : Keyring) :
    Renewed now g (r.roster d others) ((r.removeExpired d now).roster d others) :=
  renewed_dropWhile r.keys r.nextKey r.keyGen

end Rings

/-- The keys of a module. -/
def DenomSecmod.roster (s : DenomSecmod) : Roster := ⟨s.entries, s.nextKey, s.keyGen⟩

section Denominations

variable {s : DenomSecmod} {now g keyGen nextKey : ℕ} {wake : Bool} {dn : SecmodDenomination}
  {ds : List SecmodDenomination}

def entriesOf (ds : List SecmodDenomination) : List KeyEntry :=
  ds.flatMap fun dn => dn.keys.map dn.durations.entry

theorem entriesOf_cons (dn : SecmodDenomination) (ds : List SecmodDenomination) :
    entriesOf (dn :: ds) = dn.keys.map dn.durations.entry ++ entriesOf ds := rfl

theorem perm_insertByActionTime (dn : SecmodDenomination) (ds : List SecmodDenomination) :
    (insertByActionTime dn ds).Perm (dn :: ds) := by
  unfold insertByActionTime
  refine List.perm_middle.trans (List.Perm.cons _ ?_)
  rw [List.takeWhile_append_dropWhile]

/-- What `update_keys` does to the keys of all denominations. -/
theorem renewed_updateKeys (hw : keyGen = if wake then g + 1 else g) :
    Renewed now g ⟨entriesOf (dn :: ds), nextKey, keyGen⟩
        (updateKeys now wake dn ds keyGen nextKey).1.roster ∧
      (updateKeys now wake dn ds keyGen nextKey).1.keyGen =
        if (updateKeys now wake dn ds keyGen nextKey).2 then g + 1 else g := by
  obtain ⟨hc, hwoken⟩ := @renewed_createKeys dn.durations now g
    ⟨dn.keys, keyGen, nextKey, wake⟩ (entriesOf ds) hw
  have hrem := @renewed_removeExpired dn.durations now g (entriesOf ds)
    ((⟨dn.keys, keyGen, nextKey, wake⟩ : Keyring).createKeys dn.durations now)
  refine ⟨hc.trans (hrem.trans ?_), hwoken⟩
  refine Renewed.of_perm ?_ le_rfl
  exact (perm_insertByActionTime _ ds).flatMap_right _

theorem renewed_denominationLoop {n : ℕ} {res : DenomSecmod × Bool}
    (hw : s.keyGen = if wake then g + 1 else g) (h : denominationLoop now n wake s = some res) :
    Renewed now g s.roster res.1.roster := by
  induction n generalizing wake s with
  | zero => exact nomatch h
  | succ n ih =>
    unfold denominationLoop at h
    cases hds : s.denoms with
    | nil =>
      rw [hds] at h
      exact nomatch h
    | cons dn ds =>
      rw [hds] at h
      dsimp only at h
      obtain ⟨h1, h2⟩ := @renewed_updateKeys now g _ s.nextKey _ dn ds hw
      have hs : s.roster = ⟨entriesOf (dn :: ds), s.nextKey, s.keyGen⟩ := by
        rw [← hds]
        rfl
      rw [hs]
      split at h
      · cases h
        exact h1
      · exact h1.trans (ih h2 h)

/-- What `update_denominations` does to the keys. -/
theorem renewed_updateDenominations {res : DenomSecmod × Bool}
    (h : updateDenominations now s = some res) : Renewed now s.keyGen s.roster res.1.roster :=
  renewed_denominationLoop rfl h

end Denominations

/-! ## Revocations -/

section Revocation

variable {d : KeyDurations} {gen next h : ℕ} {ks : List SecmodKey}

theorem revokeKey_of_not_mem (hk : h ∉ ks.map SecmodKey.hash) : revokeKey gen next h ks = ks := by
  induction ks with
  | nil => rfl
  | cons k ks ih =>
    rw [List.map_cons, List.mem_cons, not_or] at hk
    rw [revokeKey, if_neg (Ne.symm hk.1), ih hk.2]

theorem hash_purgeKey (k : SecmodKey) : (Keyring.purgeKey gen k).hash = k.hash := by
  unfold Keyring.purgeKey
  split <;> rfl

theorem announcement_purgeKey (k : SecmodKey) :
    (d.entry (Keyring.purgeKey gen k)).announcement = (d.entry k).announcement := by
  unfold Keyring.purgeKey
  split <;> rfl

theorem hashes_entries (ks : List SecmodKey) :
    (ks.map d.entry).map KeyEntry.hash = ks.map SecmodKey.hash := by
  rw [List.map_map]
  rfl

/-- The hash of the new key is put after that of the revoked one. -/
theorem hashes_revokeKey (hk : h ∈ ks.map SecmodKey.hash) :
    ((revokeKey gen next h ks).map SecmodKey.hash).Perm (next :: ks.map SecmodKey.hash) := by
  induction ks with
  | nil => exact absurd hk List.not_mem_nil
  | cons k ks ih =>
    rw [revokeKey]
    by_cases heq : k.hash = h
    · rw [if_pos heq, List.map_cons, List.map_cons, List.map_cons, hash_purgeKey]
      exact List.Perm.swap _ _ _
    · rw [if_neg heq, List.map_cons, List.map_cons]
      refine (List.Perm.cons _ (ih ?_)).trans (List.Perm.swap _ _ _)
      exact ((List.mem_map.1 hk).elim fun x hx => (List.mem_cons.1 hx.1).elim
        (fun hxk => absurd (hxk ▸ hx.2) heq) fun hxs => List.mem_map.2 ⟨x, hxs, hx.2⟩)

/-- The keys after a revocation: the marked key, the new one, and those before. -/
theorem mem_revokeKey {k : SecmodKey} (hk : k ∈ revokeKey gen next h ks) :
    (k ∈ ks ∧ (k.hash ≠ h ∨ ¬ (ks.map SecmodKey.hash).Nodup)) ∨
      (∃ x ∈ ks, x.hash = h ∧ k = Keyring.purgeKey gen x) ∨
        ∃ x ∈ ks, x.hash = h ∧ k = ⟨next, x.anchor, gen, 0, false⟩ := by
  induction ks with
  | nil => exact absurd hk List.not_mem_nil
  | cons y ks ih =>
    rw [revokeKey] at hk
    by_cases heq : y.hash = h
    · rw [if_pos heq] at hk
      rcases List.mem_cons.1 hk with rfl | hk
      · exact Or.inr (Or.inl ⟨y, List.mem_cons_self, heq, rfl⟩)
      rcases List.mem_cons.1 hk with rfl | hk
      · exact Or.inr (Or.inr ⟨y, List.mem_cons_self, heq, rfl⟩)
      · refine Or.inl ⟨List.mem_cons_of_mem _ hk, ?_⟩
        by_cases hne : k.hash = h
        · refine Or.inr fun hnd => ?_
          rw [List.map_cons, List.nodup_cons] at hnd
          exact hnd.1 ((heq.trans hne.symm) ▸ List.mem_map_of_mem hk)
        · exact Or.inl hne
    · rw [if_neg heq] at hk
      rcases List.mem_cons.1 hk with rfl | hk
      · exact Or.inl ⟨List.mem_cons_self, Or.inl heq⟩
      · rcases ih hk with ⟨hmem, hor⟩ | ⟨x, hx, h1, h2⟩ | ⟨x, hx, h1, h2⟩
        · refine Or.inl ⟨List.mem_cons_of_mem _ hmem, hor.imp_right fun hnot hnd => hnot ?_⟩
          exact (List.nodup_cons.1 hnd).2
        · exact Or.inr (Or.inl ⟨x, List.mem_cons_of_mem _ hx, h1, h2⟩)
        · exact Or.inr (Or.inr ⟨x, List.mem_cons_of_mem _ hx, h1, h2⟩)

/-- Every key is still there, possibly marked. -/
theorem kept_revokeKey {k : SecmodKey} (hk : k ∈ ks) :
    k ∈ revokeKey gen next h ks ∨
      k.hash = h ∧ Keyring.purgeKey gen k ∈ revokeKey gen next h ks := by
  induction ks with
  | nil => exact absurd hk List.not_mem_nil
  | cons y ks ih =>
    rw [revokeKey]
    by_cases heq : y.hash = h
    · rw [if_pos heq]
      rcases List.mem_cons.1 hk with rfl | hk
      · exact Or.inr ⟨heq, List.mem_cons_self⟩
      · exact Or.inl (List.mem_cons_of_mem _ (List.mem_cons_of_mem _ hk))
    · rw [if_neg heq]
      rcases List.mem_cons.1 hk with rfl | hk
      · exact Or.inl List.mem_cons_self
      · exact (ih hk).imp (List.mem_cons_of_mem _) fun ⟨h1, h2⟩ => ⟨h1, List.mem_cons_of_mem _ h2⟩

end Revocation

/-- A key is marked, and a new one comes. -/
structure Replaced (h : ℕ) (R R' : Roster) : Prop where
  new : ∀ e ∈ R'.entries, e ∈ R.entries ∧ e.hash ≠ h ∨
    e.hash = h ∧ e.purge = true ∧ R.keyGen < e.keyGen ∨
    e.hash = R.nextKey ∧ e.purge = false ∧ R.keyGen < e.keyGen
  kept : ∀ e ∈ R.entries, ∃ e' ∈ R'.entries, e'.announcement = e.announcement
  ok : R'.Ok
  next : R'.nextKey = R.nextKey + 1
  gen : R'.keyGen = R.keyGen + 1

theorem Replaced.evolves {h now : ℕ} {R R' : Roster} (hr : Replaced h R R') :
    Evolves now R.keyGen R.entries R'.entries where
  stamped e he := by
    rcases hr.new e he with ⟨h1, -⟩ | ⟨-, -, h3⟩ | ⟨-, -, h3⟩
    · exact Or.inl h1
    · exact Or.inr h3
    · exact Or.inr h3
  kept e he := Or.inr (hr.kept e he)

section Replacement

variable {ds : List SecmodDenomination} {gen next h : ℕ}

def revokeIn (gen next h : ℕ) (ds : List SecmodDenomination) : List SecmodDenomination :=
  ds.map fun dn => { dn with keys := revokeKey gen next h dn.keys }

theorem mem_entriesOf {e : KeyEntry} :
    e ∈ entriesOf ds ↔ ∃ dn ∈ ds, ∃ k ∈ dn.keys, dn.durations.entry k = e := by
  unfold entriesOf
  simp only [List.mem_flatMap, List.mem_map]

theorem hashes_entriesOf (dn : SecmodDenomination) (ds : List SecmodDenomination) :
    (entriesOf (dn :: ds)).map KeyEntry.hash =
      dn.keys.map SecmodKey.hash ++ (entriesOf ds).map KeyEntry.hash := by
  rw [entriesOf_cons, List.map_append, hashes_entries]

theorem sublist_entriesOf {dn : SecmodDenomination} (hdn : dn ∈ ds) :
    (dn.keys.map dn.durations.entry).Sublist (entriesOf ds) := by
  unfold entriesOf
  rw [List.flatMap_def]
  exact List.sublist_flatten_of_mem (List.mem_map_of_mem hdn)

theorem revokeIn_of_not_mem (hh : h ∉ (entriesOf ds).map KeyEntry.hash) :
    revokeIn gen next h ds = ds := by
  induction ds with
  | nil => rfl
  | cons dn ds ih =>
    rw [hashes_entriesOf, List.mem_append, not_or] at hh
    unfold revokeIn at ih ⊢
    rw [List.map_cons, ih hh.2, revokeKey_of_not_mem hh.1]

theorem hashes_revokeIn (hnd : ((entriesOf ds).map KeyEntry.hash).Nodup)
    (hh : h ∈ (entriesOf ds).map KeyEntry.hash) :
    ((entriesOf (revokeIn gen next h ds)).map KeyEntry.hash).Perm
      (next :: (entriesOf ds).map KeyEntry.hash) := by
  induction ds with
  | nil => exact absurd hh List.not_mem_nil
  | cons dn ds ih =>
    change ((entriesOf ({ dn with keys := revokeKey gen next h dn.keys } ::
      revokeIn gen next h ds)).map KeyEntry.hash).Perm _
    rw [hashes_entriesOf] at hnd hh ⊢
    rw [hashes_entriesOf]
    obtain ⟨hnd1, hnd2, hdis⟩ := List.nodup_append.1 hnd
    by_cases h1 : h ∈ dn.keys.map SecmodKey.hash
    · rw [revokeIn_of_not_mem fun h2 => hdis h h1 h h2 rfl]
      exact (hashes_revokeKey h1).append_right _
    · rw [revokeKey_of_not_mem h1]
      have h2 := (List.mem_append.1 hh).resolve_left h1
      exact ((ih hnd2 h2).append_left _).trans List.perm_middle

/-- **What a revocation does.** -/
theorem replaced_revokeIn (hok : (⟨entriesOf ds, next, gen⟩ : Roster).Ok) {e : KeyEntry}
    (he : e ∈ entriesOf ds) (hh : e.hash = h) (hp : e.purge = false) :
    Replaced h ⟨entriesOf ds, next, gen⟩
      ⟨entriesOf (revokeIn (gen + 1) next h ds), next + 1, gen + 1⟩ := by
  have hmem : h ∈ (entriesOf ds).map KeyEntry.hash := hh ▸ List.mem_map_of_mem he
  have hnew : ∀ x ∈ entriesOf (revokeIn (gen + 1) next h ds), x ∈ entriesOf ds ∧ x.hash ≠ h ∨
      x.hash = h ∧ x.purge = true ∧ x.keyGen = gen + 1 ∨
        x.hash = next ∧ x.purge = false ∧ x.keyGen = gen + 1 := by
    intro x hx
    obtain ⟨dn', hdn', k, hk, rfl⟩ := mem_entriesOf.1 hx
    obtain ⟨dn, hdn, rfl⟩ := List.mem_map.1 hdn'
    rcases mem_revokeKey hk with ⟨hold, hor⟩ | ⟨y, hy, hyh, rfl⟩ | ⟨y, hy, hyh, rfl⟩
    · refine Or.inl ⟨mem_entriesOf.2 ⟨dn, hdn, k, hold, rfl⟩, hor.resolve_right fun hnot => hnot ?_⟩
      rw [← hashes_entries (d := dn.durations)]
      exact hok.nodup.sublist ((sublist_entriesOf hdn).map _)
    · have hy' : dn.durations.entry y = e :=
        List.inj_on_of_nodup_map hok.nodup (mem_entriesOf.2 ⟨dn, hdn, y, hy, rfl⟩) he (hyh.trans hh.symm)
      have hyp : y.purge = false := (congrArg KeyEntry.purge hy').trans hp
      refine Or.inr (Or.inl ?_)
      unfold Keyring.purgeKey
      rw [hyp]
      exact ⟨hyh, rfl, rfl⟩
    · exact Or.inr (Or.inr ⟨rfl, rfl, rfl⟩)
  refine ⟨fun x hx => ?_, fun x hx => ?_, ⟨?_, fun x hx => ?_, fun x hx => ?_⟩, rfl, rfl⟩
  · rcases hnew x hx with h1 | ⟨h1, h2, h3⟩ | ⟨h1, h2, h3⟩
    · exact Or.inl h1
    · exact Or.inr (Or.inl ⟨h1, h2, h3 ▸ Nat.lt_succ_self gen⟩)
    · exact Or.inr (Or.inr ⟨h1, h2, h3 ▸ Nat.lt_succ_self gen⟩)
  · obtain ⟨dn, hdn, k, hk, rfl⟩ := mem_entriesOf.1 hx
    have hdn' : ({ dn with keys := revokeKey (gen + 1) next h dn.keys } : SecmodDenomination) ∈
      revokeIn (gen + 1) next h ds := List.mem_map.2 ⟨dn, hdn, rfl⟩
    rcases @kept_revokeKey (gen + 1) next h _ _ hk with hk' | ⟨-, hk'⟩
    · exact ⟨_, mem_entriesOf.2 ⟨_, hdn', k, hk', rfl⟩, rfl⟩
    · exact ⟨_, mem_entriesOf.2 ⟨_, hdn', _, hk', rfl⟩, announcement_purgeKey k⟩
  · refine (hashes_revokeIn hok.nodup hmem).nodup_iff.2 (List.nodup_cons.2 ⟨fun hn => ?_, hok.nodup⟩)
    obtain ⟨x, hx, hxn⟩ := List.mem_map.1 hn
    exact (hok.below x hx).ne hxn
  · rcases hnew x hx with ⟨h1, -⟩ | ⟨h1, -⟩ | ⟨h1, -⟩
    · exact (hok.below x h1).trans (Nat.lt_succ_self _)
    · rw [h1, ← hh]
      exact (hok.below e he).trans (Nat.lt_succ_self _)
    · rw [h1]
      exact Nat.lt_succ_self _
  · rcases hnew x hx with ⟨h1, -⟩ | ⟨-, -, h1⟩ | ⟨-, -, h1⟩
    · exact (hok.stamped x h1).trans (Nat.le_succ _)
    · exact h1.le
    · exact h1.le

end Replacement

/-! ## RSA and CS -/

/-- No request yields anything made with a revoked key, and all clients are in sync afterwards. -/
def DenomDead {ρ : Type} (answer : DenomService → DenomOp ρ → Option (Except SignFailure MadeWith))
    (v : DenomService) (o : DenomOp ρ) : Prop :=
  (∀ m, answer v o = some (.ok m) → m.key ∉ v.revoked) ∧
    AllInSync (denomStep v o).secmod.roster (denomStep v o).now (denomStep v o).clients

/-- The answer to a request, in general. -/
def denomAnswer {ρ : Type} (make : ρ → ℕ → Option ℕ) (v : DenomService) :
    DenomOp ρ → Option (Except SignFailure MadeWith)
  | .request r h => some (v.secmod.produce (make r) v.now h)
  | _ => none

/-- What a request to the module for CS makes with a key. -/
def SecmodCs.make (csSign csRDerive : ℕ → Bool → ℕ → ℕ) : Request → ℕ → Option ℕ
  | .sign planchet forMelt, k => some (csSign planchet forMelt k)
  | .derive nonce forMelt, k => some (csRDerive nonce forMelt k)

/-- No request meets a marked key that is valid already, and no client connects while there is a marked
key that has not expired. -/
def DenomCareful {ρ : Type} (make : ρ → ℕ → Option ℕ) (v : DenomService) : DenomOp ρ → Prop
  | .request r h => ∀ k, v.secmod.lookup h = some k → k.purge = true →
    k.anchor * oneSecond ≤ v.now → make r h = none
  | .clientInit => ∀ e ∈ v.secmod.entries, e.purge = true → e.expires < v.now
  | _ => True

/-- The invariant: the marked keys are those that have been revoked. -/
structure SecmodService.DenomOk (v : DenomService) : Prop where
  roster : v.secmod.roster.Ok
  follows : Follows v.secmod.roster v.now v.clients
  marked : ∀ e ∈ v.secmod.entries, e.purge = true ↔ e.hash ∈ v.revoked
  past : ∀ h ∈ v.revoked, h < v.secmod.nextKey

section Denominations

variable {ρ : Type} {make : ρ → ℕ → Option ℕ} {v : DenomService} {s : DenomSecmod} {h : ℕ}

theorem mem_of_lookup {k : SecmodKey} (hk : s.lookup h = some k) :
    k.hash = h ∧ ∃ dn ∈ s.denoms, k ∈ dn.keys := by
  unfold DenomSecmod.lookup at hk
  have hmem := List.mem_of_find?_eq_some hk
  unfold DenomSecmod.keys at hmem
  have hh := List.find?_some hk
  exact ⟨of_decide_eq_true hh, List.mem_flatMap.1 hmem⟩

theorem entry_of_lookup {k : SecmodKey} (hk : s.lookup h = some k) :
    ∃ e ∈ s.entries, e.hash = h ∧ e.purge = k.purge := by
  obtain ⟨hh, dn, hdn, hmem⟩ := mem_of_lookup hk
  exact ⟨dn.durations.entry k, mem_entriesOf.2 ⟨dn, hdn, k, hmem, rfl⟩, hh, rfl⟩

theorem entries_setRc (f : ℕ → ℕ) (h : ℕ) (s : DenomSecmod) : (s.setRc f h).entries = s.entries := by
  unfold DenomSecmod.entries DenomSecmod.setRc
  rw [List.flatMap_map]
  refine List.flatMap_congr fun dn _ => ?_
  unfold setRc
  rw [List.map_map]
  refine List.map_congr_left fun k _ => ?_
  rw [Function.comp_apply]
  split <;> rfl

theorem roster_setRc (f : ℕ → ℕ) (h : ℕ) (s : DenomSecmod) : (s.setRc f h).roster = s.roster := by
  unfold DenomSecmod.roster
  rw [entries_setRc]
  rfl

theorem access_cases (s : DenomSecmod) (now h : ℕ) :
    (∃ e, s.access now h = .error e) ∨ s.access now h = .ok (s.setRc (· + 1) h) := by
  unfold DenomSecmod.access
  cases s.lookup h with
  | none => exact Or.inl ⟨_, rfl⟩
  | some k =>
    dsimp only
    by_cases hn : now < k.anchor * oneSecond
    · rw [if_pos hn]
      exact Or.inl ⟨_, rfl⟩
    · rw [if_neg hn]
      exact Or.inr rfl

theorem secmod_request (r : ρ) (h : ℕ) (v : DenomService) :
    (denomStep v (.request r h)).secmod.roster = v.secmod.roster ∧
      (denomStep v (.request r h)).clients = v.clients ∧
      (denomStep v (.request r h)).revoked = v.revoked ∧
      (denomStep v (.request r h)).now = v.now := by
  unfold denomStep
  dsimp only
  rcases access_cases v.secmod v.now h with ⟨e, he⟩ | he
  · rw [he]
    exact ⟨rfl, rfl, rfl, rfl⟩
  · rw [he]
    exact ⟨roster_setRc _ _ _, rfl, rfl, rfl⟩

/-- The invariant needs the roster, the clients, the revocations and the time only. -/
theorem SecmodService.DenomOk.congr {v' : DenomService} (hok : v.DenomOk)
    (h : v'.secmod.roster = v.secmod.roster ∧ v'.clients = v.clients ∧ v'.revoked = v.revoked ∧
      v'.now = v.now) : v'.DenomOk := by
  obtain ⟨h1, h2, h3, h4⟩ := h
  have hentries : v'.secmod.entries = v.secmod.entries := congrArg Roster.entries h1
  have hnext : v'.secmod.nextKey = v.secmod.nextKey := congrArg Roster.nextKey h1
  refine ⟨h1 ▸ hok.roster, ?_, ?_, ?_⟩
  · rw [h1, h2, h4]
    exact hok.follows
  · rw [hentries, h3]
    exact hok.marked
  · rw [hnext, h3]
    exact hok.past

theorem access_none {now : ℕ} (hk : s.lookup h = none) :
    s.access now h = .error .denominationKeyUnknown := by
  unfold DenomSecmod.access
  rw [hk]

theorem access_some {now : ℕ} {k} (hk : s.lookup h = some k) :
    s.access now h =
      if now < k.anchor * oneSecond then .error .tooEarly else .ok (s.setRc (· + 1) h) := by
  unfold DenomSecmod.access
  rw [hk]

/-- A request yields something exactly if it finds a valid key. -/
theorem produce_eq_ok {make : ℕ → Option ℕ} {now : ℕ} {m : MadeWith} :
    s.produce make now h = .ok m ↔
      m.key = h ∧ make h = some m.value ∧ ∃ k, s.lookup h = some k ∧ k.anchor * oneSecond ≤ now := by
  unfold DenomSecmod.produce
  cases hk : s.lookup h with
  | none =>
    rw [access_none hk]
    exact iff_of_false (fun h => nomatch h) (fun ⟨_, _, k, hk', _⟩ => nomatch hk')
  | some k =>
    rw [access_some hk]
    by_cases hn : now < k.anchor * oneSecond
    · rw [if_pos hn]
      refine iff_of_false (fun h => nomatch h) ?_
      rintro ⟨-, -, k', hk', ha⟩
      cases hk'
      exact absurd ha (not_le.2 hn)
    · rw [if_neg hn]
      have hvalid : ∃ k', some k = some k' ∧ k'.anchor * oneSecond ≤ now := ⟨k, rfl, not_lt.1 hn⟩
      obtain ⟨mk, mv⟩ := m
      cases make h with
      | none => exact iff_of_false (fun h => nomatch h) (fun h => nomatch h.2.1)
      | some x =>
        constructor
        · intro hm
          cases hm
          exact ⟨rfl, rfl, hvalid⟩
        · rintro ⟨rfl, hx, -⟩
          cases hx
          rfl
theorem handleRevokeRequest_cases (s : DenomSecmod) (h : ℕ) (hok : s.roster.Ok) :
    s.handleRevokeRequest h = s ∧
        (s.lookup h = none ∨ ∃ e ∈ s.entries, e.hash = h ∧ e.purge = true) ∨
      Replaced h s.roster (s.handleRevokeRequest h).roster ∧ (s.lookup h).isSome = true ∧
        h < s.nextKey := by
  unfold DenomSecmod.handleRevokeRequest
  cases hk : s.lookup h with
  | none => exact Or.inl ⟨rfl, Or.inl rfl⟩
  | some k =>
    obtain ⟨e, he, hh, hp⟩ := entry_of_lookup hk
    dsimp only
    cases hkp : k.purge with
    | true =>
      rw [if_pos rfl]
      exact Or.inl ⟨rfl, Or.inr ⟨e, he, hh, hp.trans hkp⟩⟩
    | false =>
      rw [if_neg Bool.false_ne_true]
      exact Or.inr ⟨replaced_revokeIn hok he hh (hp.trans hkp), rfl, hh ▸ hok.below e he⟩

/-- The marks after an update. -/
theorem marked_renewed {R R' : Roster} {now g : ℕ} {revoked : List ℕ} (hr : Renewed now g R R')
    (hm : ∀ e ∈ R.entries, e.purge = true ↔ e.hash ∈ revoked) (hp : ∀ h ∈ revoked, h < R.nextKey) :
    ∀ e ∈ R'.entries, e.purge = true ↔ e.hash ∈ revoked := by
  intro e he
  rcases hr.new e he with h | ⟨hn, hpurge, -⟩
  · exact hm e h
  · rw [hpurge]
    exact iff_of_false Bool.false_ne_true fun h => absurd (hp _ h) (not_lt.2 hn)

/-- The marks after a revocation. -/
theorem marked_replaced {R R' : Roster} {revoked : List ℕ} (hr : Replaced h R R') (hh : h < R.nextKey)
    (hm : ∀ e ∈ R.entries, e.purge = true ↔ e.hash ∈ revoked) (hp : ∀ h ∈ revoked, h < R.nextKey) :
    ∀ e ∈ R'.entries, e.purge = true ↔ e.hash ∈ h :: revoked := by
  intro e he
  rw [List.mem_cons]
  rcases hr.new e he with ⟨hold, hne⟩ | ⟨heq, hpurge, -⟩ | ⟨heq, hpurge, -⟩
  · rw [or_iff_right hne]
    exact hm e hold
  · exact iff_of_true hpurge (Or.inl heq)
  · rw [hpurge]
    refine iff_of_false Bool.false_ne_true fun hor => ?_
    rcases hor with h1 | h1
    · exact hh.ne (h1.symm.trans heq)
    · exact (hp _ h1).ne heq

theorem SecmodService.DenomOk.revoke (hok : v.DenomOk) (h : ℕ) : (denomStep (ρ := ρ) v (.revoke h)).DenomOk := by
  rcases handleRevokeRequest_cases v.secmod h hok.roster with ⟨hs, hor⟩ | ⟨hr, hsome, hlt⟩
  · have hrevoked : ∀ x, x ∈ (denomStep (ρ := ρ) v (.revoke h)).revoked ↔ x ∈ v.revoked := by
      intro x
      change x ∈ (if (v.secmod.lookup h).isSome then h :: v.revoked else v.revoked) ↔ _
      rcases hor with hnone | ⟨e, he, hh, hp⟩
      · rw [hnone]
        exact Iff.rfl
      · split
        · rw [List.mem_cons]
          exact or_iff_right_of_imp fun hx => hx ▸ hh ▸ (hok.marked e he).1 hp
        · exact Iff.rfl
    have hsec : (denomStep (ρ := ρ) v (.revoke h)).secmod = v.secmod := hs
    refine ⟨hsec ▸ hok.roster, ?_, ?_, ?_⟩
    · rw [hsec]
      exact hok.follows
    · rw [hsec]
      exact fun e he => (hok.marked e he).trans (hrevoked _).symm
    · rw [hsec]
      exact fun x hx => hok.past x ((hrevoked x).1 hx)
  · have hrevoked : (denomStep (ρ := ρ) v (.revoke h)).revoked = h :: v.revoked := if_pos hsome
    refine ⟨hr.ok, hok.follows.evolve hr.evolves (hr.gen.symm ▸ Nat.le_succ _), ?_, ?_⟩
    · rw [hrevoked]
      exact marked_replaced hr hlt hok.marked hok.past
    · rw [hrevoked]
      have hnext : (denomStep (ρ := ρ) v (.revoke h)).secmod.nextKey = v.secmod.nextKey + 1 := hr.next
      intro x hx
      rw [hnext]
      rcases List.mem_cons.1 hx with rfl | hx
      · exact hlt.trans (Nat.lt_succ_self _)
      · exact (hok.past x hx).trans (Nat.lt_succ_self _)

theorem SecmodService.DenomOk.update (hok : v.DenomOk) :
    (denomStep (ρ := ρ) v .updateDenominations).DenomOk := by
  unfold denomStep
  dsimp only
  cases hu : updateDenominations v.now v.secmod with
  | none => exact hok
  | some res =>
    have hr := renewed_updateDenominations hu
    exact ⟨hr.ok hok.roster, hok.follows.evolve hr.evolves hr.gen_le,
      marked_renewed hr hok.marked hok.past, fun x hx => (hok.past x hx).trans_le hr.next_le⟩

/-- **One operation**: it is dead exactly if it is careful, and keeps the invariant then. -/
theorem denomDead_iff (hok : v.DenomOk) (o : DenomOp ρ) :
    (DenomDead (denomAnswer make) v o ↔ DenomCareful make v o) ∧ (DenomDead (denomAnswer make) v o → (denomStep v o).DenomOk) := by
  have hsync : ∀ {o : DenomOp ρ}, (denomStep v o).DenomOk → (∀ m, denomAnswer make v o ≠ some (.ok m)) →
      DenomDead (denomAnswer make) v o := fun hok' hno =>
    ⟨fun m hm => absurd hm (hno m), hok'.follows.allInSync hok'.roster⟩
  have hfree : ∀ {o : DenomOp ρ}, (denomStep v o).DenomOk → (∀ m, denomAnswer make v o ≠ some (.ok m)) →
      DenomCareful make v o →
      (DenomDead (denomAnswer make) v o ↔ DenomCareful make v o) ∧ (DenomDead (denomAnswer make) v o → (denomStep v o).DenomOk) :=
    fun hok' hno hc => ⟨iff_of_true (hsync hok' hno) hc, fun _ => hok'⟩
  cases o with
  | wait d =>
    refine hfree ?_ (fun m h => nomatch h) trivial
    exact ⟨hok.roster, hok.follows.later (Nat.le_add_right _ _), hok.marked, hok.past⟩
  | finish h =>
    exact hfree (hok.congr ⟨roster_setRc _ _ _, rfl, rfl, rfl⟩) (fun m h => nomatch h) trivial
  | revoke h => exact hfree (hok.revoke h) (fun m h => nomatch h) trivial
  | updateDenominations => exact hfree hok.update (fun m h => nomatch h) trivial
  | updateClientKeys i =>
    refine hfree ?_ (fun m h => nomatch h) trivial
    exact ⟨hok.roster, hok.follows.update hok.roster i, hok.marked, hok.past⟩
  | clientInit =>
    have hiff : DenomDead (denomAnswer make) v .clientInit ↔ DenomCareful make v .clientInit := by
      refine Iff.trans ⟨fun h => h.2, fun h => ⟨fun m hm => (nomatch hm), h⟩⟩ ?_
      exact allInSync_init hok.follows hok.roster
    refine ⟨hiff, fun h => ⟨hok.roster, hok.follows.init (hiff.1 h), hok.marked, hok.past⟩⟩
  | request r h =>
    have hok' := hok.congr (secmod_request r h v)
    refine ⟨⟨fun hd k hk hp ha => ?_, fun hc => ⟨fun m hm => ?_, ?_⟩⟩, fun _ => hok'⟩
    · obtain ⟨e, he, hh, hpe⟩ := entry_of_lookup hk
      cases hm : make r h with
      | none => rfl
      | some x =>
        refine absurd ((hok.marked e he).1 (hpe.trans hp)) (hh.symm ▸ hd.1 ⟨h, x⟩ ?_)
        exact congrArg some (produce_eq_ok.2 ⟨rfl, hm, k, hk, ha⟩)
    · obtain ⟨hkey, hmake, k, hk, ha⟩ := produce_eq_ok.1 (Option.some.inj hm)
      obtain ⟨e, he, hh, hpe⟩ := entry_of_lookup hk
      rw [hkey, ← hh]
      intro hrev
      have hnone := hc k hk (hpe.symm.trans ((hok.marked e he).2 hrev)) ha
      rw [hnone] at hmake
      exact nomatch hmake
    · exact hok'.follows.allInSync hok'.roster

/-- A module after the keys have been loaded, without clients. -/
structure SecmodService.DenomLoaded (v : DenomService) : Prop where
  roster : v.secmod.roster.Ok
  clients : v.clients = []
  revoked : v.revoked = []
  valid : ∀ e ∈ v.secmod.entries, e.purge = false

theorem SecmodService.DenomLoaded.ok (hl : v.DenomLoaded) : v.DenomOk where
  roster := hl.roster
  follows c hc := by
    rw [hl.clients] at hc
    exact absurd hc List.not_mem_nil
  marked e he := by
    rw [hl.valid e he, hl.revoked]
    exact iff_of_false Bool.false_ne_true List.not_mem_nil
  past h hh := by
    rw [hl.revoked] at hh
    exact absurd hh List.not_mem_nil

/-- Revoked keys of a module for denominations. -/
theorem denom_dead_iff (hl : v.DenomLoaded) (ops : List (DenomOp ρ)) :
    Admits denomStep (DenomDead (denomAnswer make)) v ops ↔ Admits denomStep (DenomCareful make) v ops :=
  admits_congr (I := SecmodService.DenomOk) (fun _ o hd hok => (denomDead_iff hok o).2 hd)
    (fun _ o hok => (denomDead_iff hok o).1) hl.ok ops

end Denominations

/-! ## EdDSA -/

def EddsaSecmod.roster (s : EddsaSecmod) : Roster := ⟨s.entries, s.nextKey, s.keyGen⟩

/-- No request yields a signature by a revoked key, and all clients are in sync afterwards. -/
def EddsaDead (eddsaSign : ℕ → ℕ → Option ℕ) (v : EddsaService) (o : EddsaOp) : Prop :=
  (∀ m, eddsaAnswer eddsaSign v o = some (.ok m) → m.key ∉ v.revoked) ∧
    AllInSync (eddsaStep v o).secmod.roster (eddsaStep v o).now (eddsaStep v o).clients

/-- A request finds no revoked key first, and no client connects while there is a marked key that has not
expired. -/
def EddsaCareful (eddsaSign : ℕ → ℕ → Option ℕ) (v : EddsaService) : EddsaOp → Prop
  | .sign m => ∀ k ∈ (v.secmod.cleaned v.now).head?, k.hash ∈ v.revoked → eddsaSign m k.hash = none
  | .clientInit => ∀ e ∈ v.secmod.entries, e.purge = true → e.expires < v.now
  | _ => True

/-- The invariant: revoked keys are marked, and other marked keys have expired. -/
structure SecmodService.EddsaOk (v : EddsaService) : Prop where
  roster : v.secmod.roster.Ok
  follows : Follows v.secmod.roster v.now v.clients
  marked : ∀ e ∈ v.secmod.entries, e.hash ∈ v.revoked → e.purge = true
  past : ∀ h ∈ v.revoked, h < v.secmod.nextKey

section Purging

variable {d : KeyDurations} {now gen g n : ℕ} {ks : List SecmodKey}

theorem hashes_purgeExpired (ks : List SecmodKey) :
    (Keyring.purgeExpired d now gen ks).map SecmodKey.hash = ks.map SecmodKey.hash := by
  induction ks with
  | nil => rfl
  | cons k ks ih =>
    rw [Keyring.purgeExpired]
    split
    · rw [List.map_cons, List.map_cons, hash_purgeKey, ih]
    · rfl

/-- A key after the purge: it is as before, or marked in the new generation. -/
theorem mem_purgeExpired {k : SecmodKey} (hk : k ∈ Keyring.purgeExpired d now gen ks) :
    k ∈ ks ∨ k.purge = true ∧ k.keyGen = gen := by
  induction ks with
  | nil => exact absurd hk List.not_mem_nil
  | cons y ks ih =>
    rw [Keyring.purgeExpired] at hk
    by_cases hexp : d.expires y < now
    · rw [if_pos hexp] at hk
      rcases List.mem_cons.1 hk with rfl | hk
      · unfold Keyring.purgeKey
        split
        · exact Or.inl List.mem_cons_self
        · exact Or.inr ⟨rfl, rfl⟩
      · exact (ih hk).imp_left (List.mem_cons_of_mem _)
    · rw [if_neg hexp] at hk
      exact Or.inl hk

theorem kept_purgeExpired {k : SecmodKey} (hk : k ∈ ks) :
    d.expires k < now ∨ k ∈ Keyring.purgeExpired d now gen ks := by
  induction ks with
  | nil => exact absurd hk List.not_mem_nil
  | cons y ks ih =>
    rw [Keyring.purgeExpired]
    by_cases hexp : d.expires y < now
    · rw [if_pos hexp]
      rcases List.mem_cons.1 hk with rfl | hk
      · exact Or.inl hexp
      · exact (ih hk).imp_right (List.mem_cons_of_mem _)
    · rw [if_neg hexp]
      exact Or.inr hk

end Purging

/-- Keys are renewed, or marked in a later generation. -/
structure Refreshed (now : ℕ) (R R' : Roster) : Prop where
  evolves : Evolves now R.keyGen R.entries R'.entries
  new : ∀ e ∈ R'.entries, e ∈ R.entries ∨ R.nextKey ≤ e.hash ∨ e.purge = true
  ok : R.Ok → R'.Ok
  next_le : R.nextKey ≤ R'.nextKey
  gen_le : R.keyGen ≤ R'.keyGen

theorem Renewed.refreshed {now : ℕ} {R R' : Roster} (h : Renewed now R.keyGen R R') :
    Refreshed now R R' where
  evolves := h.evolves
  new e he := (h.new e he).imp_right fun h => Or.inl h.1
  ok := h.ok
  next_le := h.next_le
  gen_le := h.gen_le

section Eddsa

variable {eddsaSign : ℕ → ℕ → Option ℕ} {v : EddsaService} {s : EddsaSecmod} {now g h : ℕ}

/-- What purging does to keys in the next generation. -/
theorem refreshed_purgeExpired {R : Roster} {r : Keyring} (hr : r.Woken R.keyGen)
    (h : Renewed now R.keyGen R (r.roster s.durations [])) :
    Refreshed now R ((s.purgeExpired now r).roster s.durations []) := by
  unfold EddsaSecmod.purgeExpired
  cases hhd : r.keys.head? with
  | none => exact h.refreshed
  | some k =>
    dsimp only
    by_cases hexp : s.durations.expires k < now
    swap
    · rw [if_neg hexp]
      exact h.refreshed
    rw [if_pos hexp]
    have hgen : R.keyGen < r.bump.keyGen := by
      have hb := hr.bump
      unfold Keyring.Woken at hb
      rw [Keyring.wake_bump, if_pos rfl] at hb
      exact hb.symm ▸ Nat.lt_succ_self _
    have hpurged : Evolves now R.keyGen (r.keys.map s.durations.entry)
        ((Keyring.purgeExpired s.durations now r.bump.keyGen r.keys).map s.durations.entry) := by
      refine ⟨fun e he => ?_, fun e he => ?_⟩
      · obtain ⟨k, hk, rfl⟩ := List.mem_map.1 he
        rcases mem_purgeExpired hk with hk | ⟨-, hk⟩
        · exact Or.inl (List.mem_map_of_mem hk)
        · exact Or.inr (hgen.trans_eq hk.symm)
      · obtain ⟨k, hk, rfl⟩ := List.mem_map.1 he
        rcases @kept_purgeExpired s.durations now r.bump.keyGen _ _ hk with hk | hk
        · exact Or.inl hk
        · exact Or.inr ⟨_, List.mem_map_of_mem hk, rfl⟩
    have hroster : ∀ q : Keyring, (q.roster s.durations []).entries = q.keys.map s.durations.entry :=
      fun q => List.append_nil _
    have hev := h.evolves
    rw [hroster] at hev
    refine ⟨?_, fun e he => ?_, fun hok => ?_, ?_, ?_⟩
    · rw [hroster]
      exact hev.trans hpurged
    · rw [hroster] at he
      obtain ⟨k, hk, rfl⟩ := List.mem_map.1 he
      rcases mem_purgeExpired hk with hk | ⟨hk, -⟩
      · refine (h.new (s.durations.entry k) ?_).imp_right fun h => Or.inl h.1
        rw [hroster]
        exact List.mem_map_of_mem hk
      · exact Or.inr (Or.inr hk)
    · have hok' := h.ok hok
      have hnd := hok'.nodup
      have hbelow := hok'.below
      have hstamped := hok'.stamped
      rw [hroster] at hnd hbelow hstamped
      refine ⟨?_, fun e he => ?_, fun e he => ?_⟩
      · rw [hroster, hashes_entries, hashes_purgeExpired, ← hashes_entries]
        exact hnd
      · rw [hroster] at he
        have hmem : e.hash ∈ r.keys.map SecmodKey.hash := by
          rw [← @hashes_purgeExpired s.durations now r.bump.keyGen,
            ← hashes_entries (d := s.durations)]
          exact List.mem_map_of_mem he
        obtain ⟨k, hk, hkh⟩ := List.mem_map.1 hmem
        have hlt := hbelow _ (List.mem_map_of_mem hk)
        change e.hash < r.bump.nextKey
        rw [Keyring.nextKey_bump, ← hkh]
        exact hlt
      · rw [hroster] at he
        obtain ⟨k, hk, rfl⟩ := List.mem_map.1 he
        rcases mem_purgeExpired hk with hk | ⟨-, hk⟩
        · exact (hstamped _ (List.mem_map_of_mem hk)).trans r.keyGen_le_bump
        · exact hk.le
    · change R.nextKey ≤ r.bump.nextKey
      rw [Keyring.nextKey_bump]
      exact h.next_le
    · exact h.gen_le.trans r.keyGen_le_bump

/-- What `update_keys` does to the keys. -/
theorem refreshed_eddsaUpdateKeys (s : EddsaSecmod) (now : ℕ) :
    Refreshed now s.roster (s.updateKeys now).roster := by
  obtain ⟨hc, hw⟩ := @renewed_createKeys s.durations now s.keyGen
    ⟨s.keys, s.keyGen, s.nextKey, false⟩ [] rfl
  have hs : (⟨s.keys, s.keyGen, s.nextKey, false⟩ : Keyring).roster s.durations [] = s.roster := by
    unfold Keyring.roster
    rw [List.append_nil]
    rfl
  rw [hs] at hc
  have h := refreshed_purgeExpired (R := s.roster) hw hc
  have hs' : (s.updateKeys now).roster = ((s.purgeExpired now
      ((⟨s.keys, s.keyGen, s.nextKey, false⟩ : Keyring).createKeys s.durations now)).roster
        s.durations []) := by
    unfold Keyring.roster
    rw [List.append_nil]
    rfl
  rw [hs']
  exact h

/-- What a request does to the keys: expired ones are deleted. -/
theorem renewed_holdHead (s : EddsaSecmod) (now : ℕ) :
    Renewed now g s.roster (s.holdHead now).roster := by
  have h := @renewed_dropWhile s.durations now g [] s.keys s.nextKey s.keyGen
  rw [List.append_nil, List.append_nil] at h
  have hs : (s.holdHead now).roster = ⟨(s.cleaned now).map s.durations.entry, s.nextKey, s.keyGen⟩ := by
    unfold EddsaSecmod.holdHead EddsaSecmod.roster EddsaSecmod.entries
    cases s.cleaned now <;> rfl
  rw [hs]
  exact h

theorem handleRevokeRequest_eddsa (s : EddsaSecmod) (h : ℕ) (hok : s.roster.Ok) :
    s.handleRevokeRequest h = s ∧ ((s.keys.find? fun k => k.hash = h) = none ∨
        ∃ e ∈ s.entries, e.hash = h ∧ e.purge = true) ∨
      Replaced h s.roster (s.handleRevokeRequest h).roster ∧
        (s.keys.find? fun k => k.hash = h).isSome = true ∧ h < s.nextKey := by
  unfold EddsaSecmod.handleRevokeRequest
  cases hk : s.keys.find? fun k => k.hash = h with
  | none => exact Or.inl ⟨rfl, Or.inl rfl⟩
  | some k =>
    have hh := List.find?_some hk
    have he : s.durations.entry k ∈ s.entries := List.mem_map_of_mem (List.mem_of_find?_eq_some hk)
    have hhash : (s.durations.entry k).hash = h := of_decide_eq_true hh
    dsimp only
    cases hkp : k.purge with
    | true =>
      rw [if_pos rfl]
      exact Or.inl ⟨rfl, Or.inr ⟨_, he, hhash, hkp⟩⟩
    | false =>
      rw [if_neg Bool.false_ne_true]
      refine Or.inr ⟨?_, rfl, hhash ▸ hok.below _ he⟩
      have hsing : ∀ ks, entriesOf [⟨s.durations, ks⟩] = ks.map s.durations.entry := fun ks =>
        List.append_nil _
      have hr := fun hok => @replaced_revokeIn [⟨s.durations, s.keys⟩] s.keyGen s.nextKey h hok
        (s.durations.entry k)
      unfold revokeIn at hr
      rw [List.map_singleton, hsing, hsing] at hr
      exact hr hok he hhash hkp

theorem SecmodService.EddsaOk.revoke (hok : v.EddsaOk) (h : ℕ) : (eddsaStep v (.revoke h)).EddsaOk := by
  rcases handleRevokeRequest_eddsa v.secmod h hok.roster with ⟨hs, hor⟩ | ⟨hr, hsome, hlt⟩
  · have hsec : (eddsaStep v (.revoke h)).secmod = v.secmod := hs
    have hrevoked : ∀ x ∈ (eddsaStep v (.revoke h)).revoked, x ∈ v.revoked ∨
        ∃ e ∈ v.secmod.entries, e.hash = x ∧ e.purge = true := by
      intro x hx
      change x ∈ (if (v.secmod.keys.find? fun k => k.hash = h).isSome then h :: v.revoked
        else v.revoked) at hx
      rcases hor with hnone | hmark
      · rw [hnone] at hx
        exact Or.inl hx
      · split at hx
        · rcases List.mem_cons.1 hx with rfl | hx
          · exact Or.inr hmark
          · exact Or.inl hx
        · exact Or.inl hx
    refine ⟨hsec ▸ hok.roster, ?_, ?_, ?_⟩
    · rw [hsec]
      exact hok.follows
    · rw [hsec]
      intro e he hrev
      rcases hrevoked _ hrev with h | ⟨e', he', hh, hp⟩
      · exact hok.marked e he h
      · rw [← List.inj_on_of_nodup_map hok.roster.nodup he' he hh]
        exact hp
    · rw [hsec]
      intro x hx
      rcases hrevoked x hx with h | ⟨e, he, rfl, -⟩
      · exact hok.past x h
      · exact hok.roster.below e he
  · have hrevoked : (eddsaStep v (.revoke h)).revoked = h :: v.revoked := if_pos hsome
    have hnext : (eddsaStep v (.revoke h)).secmod.nextKey = v.secmod.nextKey + 1 := hr.next
    refine ⟨hr.ok, hok.follows.evolve hr.evolves (hr.gen.symm ▸ Nat.le_succ _), ?_, ?_⟩
    · rw [hrevoked]
      intro e he hrev
      rcases hr.new e he with ⟨hold, hne⟩ | ⟨-, hp, -⟩ | ⟨heq, -, -⟩
      · exact hok.marked e hold ((List.mem_cons.1 hrev).resolve_left hne)
      · exact hp
      · have heq' : e.hash = v.secmod.nextKey := heq
        rcases List.mem_cons.1 hrev with h1 | h1
        · exact absurd (h1.symm.trans heq') hlt.ne
        · exact absurd heq' (hok.past _ h1).ne
    · rw [hrevoked]
      intro x hx
      rw [hnext]
      rcases List.mem_cons.1 hx with rfl | hx
      · exact hlt.trans (Nat.lt_succ_self _)
      · exact (hok.past x hx).trans (Nat.lt_succ_self _)

/-- The invariant after keys have been refreshed. -/
theorem SecmodService.EddsaOk.refreshed {v' : EddsaService} (hok : v.EddsaOk)
    (hr : Refreshed v.now v.secmod.roster v'.secmod.roster) (hc : v'.clients = v.clients)
    (hrev : v'.revoked = v.revoked) (hnow : v'.now = v.now) : v'.EddsaOk where
  roster := hr.ok hok.roster
  follows := by
    rw [hc, hnow]
    exact hok.follows.evolve hr.evolves hr.gen_le
  marked e he hmem := by
    rw [hrev] at hmem
    rcases hr.new e he with h | h | h
    · exact hok.marked e h hmem
    · exact absurd (hok.past _ hmem) (not_lt.2 h)
    · exact h
  past x hx := by
    rw [hrev] at hx
    exact (hok.past x hx).trans_le hr.next_le

theorem entries_setRc_eddsa (f : ℕ → ℕ) (h : ℕ) (s : EddsaSecmod) :
    ({ s with keys := setRc f h s.keys } : EddsaSecmod).roster = s.roster := by
  unfold EddsaSecmod.roster EddsaSecmod.entries setRc
  rw [List.map_map]
  congr 1
  refine List.map_congr_left fun k _ => ?_
  rw [Function.comp_apply]
  split <;> rfl

/-- A request is answered by the first key that is left. -/
theorem handleSignRequest_eq_ok {m : ℕ} {res : MadeWith} :
    s.handleSignRequest eddsaSign now m = .ok res ↔
      ∃ k ∈ (s.cleaned now).head?, k.hash = res.key ∧ eddsaSign m k.hash = some res.value := by
  unfold EddsaSecmod.handleSignRequest
  cases s.cleaned now with
  | nil => simp
  | cons k ks =>
    obtain ⟨mk, mv⟩ := res
    cases hs : eddsaSign m k.hash with
    | none => simp [hs]
    | some x => simp [hs]

/-- **One operation**: it is dead exactly if it is careful, and keeps the invariant then. -/
theorem eddsaDead_iff (hok : v.EddsaOk) (o : EddsaOp) :
    (EddsaDead eddsaSign v o ↔ EddsaCareful eddsaSign v o) ∧
      (EddsaDead eddsaSign v o → (eddsaStep v o).EddsaOk) := by
  have hfree : ∀ {o : EddsaOp}, (eddsaStep v o).EddsaOk →
      (∀ m, eddsaAnswer eddsaSign v o ≠ some (.ok m)) → EddsaCareful eddsaSign v o →
      (EddsaDead eddsaSign v o ↔ EddsaCareful eddsaSign v o) ∧
        (EddsaDead eddsaSign v o → (eddsaStep v o).EddsaOk) := fun hok' hno hc =>
    ⟨iff_of_true ⟨fun m hm => absurd hm (hno m), hok'.follows.allInSync hok'.roster⟩ hc, fun _ => hok'⟩
  cases o with
  | wait d =>
    refine hfree ?_ (fun m h => nomatch h) trivial
    exact ⟨hok.roster, hok.follows.later (Nat.le_add_right _ _), hok.marked, hok.past⟩
  | finish h =>
    refine hfree (hok.refreshed ?_ rfl rfl rfl) (fun m h => nomatch h) trivial
    have hs : (eddsaStep v (.finish h)).secmod.roster = v.secmod.roster := entries_setRc_eddsa _ _ _
    rw [hs]
    exact (Renewed.refl _ _ _).refreshed
  | revoke h => exact hfree (hok.revoke h) (fun m h => nomatch h) trivial
  | updateKeys =>
    refine hfree (hok.refreshed ?_ rfl rfl rfl) (fun m h => nomatch h) trivial
    exact refreshed_eddsaUpdateKeys _ _
  | updateClientKeys i =>
    refine hfree ?_ (fun m h => nomatch h) trivial
    exact ⟨hok.roster, hok.follows.update hok.roster i, hok.marked, hok.past⟩
  | clientInit =>
    have hiff : EddsaDead eddsaSign v .clientInit ↔ EddsaCareful eddsaSign v .clientInit := by
      refine Iff.trans ⟨fun h => h.2, fun h => ⟨fun m hm => (nomatch hm), h⟩⟩ ?_
      exact allInSync_init hok.follows hok.roster
    refine ⟨hiff, fun h => ⟨hok.roster, hok.follows.init (hiff.1 h), hok.marked, hok.past⟩⟩
  | sign m =>
    have hok' : (eddsaStep v (.sign m)).EddsaOk :=
      hok.refreshed (renewed_holdHead _ _).refreshed rfl rfl rfl
    refine ⟨⟨fun hd k hk hrev => ?_, fun hc => ⟨fun res hres => ?_, ?_⟩⟩, fun _ => hok'⟩
    · cases hs : eddsaSign m k.hash with
      | none => rfl
      | some x =>
        refine absurd hrev (hd.1 ⟨k.hash, x⟩ ?_)
        exact congrArg some (handleSignRequest_eq_ok.2 ⟨k, hk, rfl, hs⟩)
    · obtain ⟨k, hk, hkey, hs⟩ := handleSignRequest_eq_ok.1 (Option.some.inj hres)
      rw [← hkey]
      intro hrev
      rw [hc k hk hrev] at hs
      exact nomatch hs
    · exact hok'.follows.allInSync hok'.roster

/-- The module after the keys have been loaded, without clients. -/
structure SecmodService.EddsaLoaded (v : EddsaService) : Prop where
  roster : v.secmod.roster.Ok
  clients : v.clients = []
  revoked : v.revoked = []

theorem SecmodService.EddsaLoaded.ok (hl : v.EddsaLoaded) : v.EddsaOk where
  roster := hl.roster
  follows c hc := by
    rw [hl.clients] at hc
    exact absurd hc List.not_mem_nil
  marked e _ h := by
    rw [hl.revoked] at h
    exact absurd h List.not_mem_nil
  past h hh := by
    rw [hl.revoked] at hh
    exact absurd hh List.not_mem_nil

end Eddsa

/-! ## The three modules -/

theorem SecmodRsa.answer_eq (rsaSignBlinded : ℕ → ℕ → Option ℕ) :
    SecmodRsa.answer rsaSignBlinded = denomAnswer rsaSignBlinded := by
  funext v o
  cases o <;> rfl

theorem SecmodCs.answer_eq (csSign csRDerive : ℕ → Bool → ℕ → ℕ) :
    SecmodCs.answer csSign csRDerive = denomAnswer (SecmodCs.make csSign csRDerive) := by
  funext v o
  cases o with
  | request r h => cases r <;> rfl
  | _ => rfl

/-- **Revoked keys are dead** at each of the modules, in exactly those runs in which no request meets a
revoked key that is still there, and no client connects while there is one that has not expired. -/
theorem revokedKeysDead_iff (rsaSignBlinded eddsaSign : ℕ → ℕ → Option ℕ)
    (csSign csRDerive : ℕ → Bool → ℕ → ℕ) :
    (∀ v : DenomService, v.DenomLoaded → ∀ ops : List (DenomOp ℕ),
      (Admits denomStep (DenomDead (SecmodRsa.answer rsaSignBlinded)) v ops ↔
        Admits denomStep (DenomCareful rsaSignBlinded) v ops)) ∧
    (∀ v : DenomService, v.DenomLoaded → ∀ ops : List (DenomOp SecmodCs.Request),
      (Admits denomStep (DenomDead (SecmodCs.answer csSign csRDerive)) v ops ↔
        Admits denomStep (DenomCareful (SecmodCs.make csSign csRDerive)) v ops)) ∧
    ∀ v : EddsaService, v.EddsaLoaded → ∀ ops : List EddsaOp,
      (Admits eddsaStep (EddsaDead eddsaSign) v ops ↔
        Admits eddsaStep (EddsaCareful eddsaSign) v ops) := by
  rw [SecmodRsa.answer_eq, SecmodCs.answer_eq]
  refine ⟨fun _ hl ops => denom_dead_iff hl ops, fun _ hl ops => denom_dead_iff hl ops,
    fun _ hl ops => ?_⟩
  exact admits_congr (I := SecmodService.EddsaOk) (fun _ o hd hok => (eddsaDead_iff hok o).2 hd)
    (fun _ o hok => (eddsaDead_iff hok o).1) hl.ok ops

namespace OneKey

def durations : KeyDurations := ⟨10000000, 0, 0, by decide⟩

/-- One key, which is valid for ten seconds. -/
def denominations : DenomService where
  secmod := ⟨[⟨durations, [⟨0, 0, 0, 0, false⟩]⟩], 0, 1⟩
  now := 1

def eddsa : EddsaService where
  secmod := ⟨durations, [⟨0, 0, 0, 0, false⟩], 0, 1⟩
  now := 1

theorem denominations_loaded : denominations.DenomLoaded where
  roster := ⟨by decide, by decide, by decide⟩
  clients := rfl
  revoked := rfl
  valid := by decide

theorem eddsa_loaded : eddsa.EddsaLoaded where
  roster := ⟨by decide, by decide, by decide⟩
  clients := rfl
  revoked := rfl

end OneKey

theorem revokedKeysDead_iff_oneKey :
    (Admits denomStep (DenomDead (SecmodRsa.answer fun m _ => some m)) OneKey.denominations
        [.revoke 0, .finish 0] ↔
      Admits denomStep (DenomCareful fun m _ => some m) OneKey.denominations
        [.revoke 0, .finish 0]) ∧
    (Admits eddsaStep (EddsaDead fun m _ => some m) OneKey.eddsa [.revoke 0] ↔
      Admits eddsaStep (EddsaCareful fun m _ => some m) OneKey.eddsa [.revoke 0]) := by
  have h := revokedKeysDead_iff (fun m _ => some m) (fun m _ => some m) (fun m _ _ => m)
    (fun m _ _ => m)
  exact ⟨h.1 _ OneKey.denominations_loaded _, h.2.2 _ OneKey.eddsa_loaded _⟩

/-- At every module, a key signs after it has been revoked. -/
theorem not_revokedKeysDead :
    (¬ ∀ (rsaSignBlinded : ℕ → ℕ → Option ℕ) (v : DenomService), v.DenomLoaded →
      ∀ ops : List (DenomOp ℕ), Admits denomStep (DenomDead (SecmodRsa.answer rsaSignBlinded)) v ops) ∧
    (¬ ∀ (csSign csRDerive : ℕ → Bool → ℕ → ℕ) (v : DenomService), v.DenomLoaded →
      ∀ ops : List (DenomOp SecmodCs.Request),
        Admits denomStep (DenomDead (SecmodCs.answer csSign csRDerive)) v ops) ∧
    ¬ ∀ (eddsaSign : ℕ → ℕ → Option ℕ) (v : EddsaService), v.EddsaLoaded →
      ∀ ops : List EddsaOp, Admits eddsaStep (EddsaDead eddsaSign) v ops := by
  refine ⟨fun h => ?_, fun h => ?_, fun h => ?_⟩
  · have h' := h (fun m _ => some m) OneKey.denominations OneKey.denominations_loaded
      [.revoke 0, .request 5 0]
    exact h'.2.1.1 ⟨0, 5⟩ (by decide) (by decide)
  · have h' := h (fun m _ _ => m) (fun m _ _ => m) OneKey.denominations OneKey.denominations_loaded
      [.revoke 0, .request (.derive 5 true) 0]
    exact h'.2.1.1 ⟨0, 5⟩ (by decide) (by decide)
  · have h' := h (fun m _ => some m) OneKey.eddsa OneKey.eddsa_loaded [.revoke 0, .sign 5]
    exact h'.2.1.1 ⟨0, 5⟩ (by decide) (by decide)

end TalerExchange
