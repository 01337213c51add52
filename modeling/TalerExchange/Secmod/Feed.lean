import Mathlib.Data.List.Perm.Basic
import Mathlib.Data.List.Nodup
import Mathlib.Order.Lattice
import Mathlib.Tactic.Common

/-!
# Announcements by generation

A service has keys that come, are withdrawn and expire. Every key carries the generation in which it last
changed; a client that knows the keys of a generation is told what has changed since.

* `KeyEntry`, `KeyClient`: a key as the clients see it, a client with the keys announced to it;
* `KeyClient.init`, `KeyClient.update`: the messages that it processes;
* `InSync`: a client has the keys that are not withdrawn, and besides them only expired ones;
* `Knows`: the invariant, for the generation of the client; `Evolves`: what may happen to the keys;
* `Roster`, `Renewed`: all keys of a service, and what an update may do to them; `Follows`: its clients.
-/

namespace TalerExchange

/-- A key: its hash, the time at which it expires, its generation, and whether it is withdrawn. -/
structure KeyEntry where
  hash : ℕ
  expires : ℕ
  keyGen : ℕ
  purge : Bool
deriving DecidableEq, Repr

/-- A key as it has been announced. -/
structure AnnouncedKey where
  hash : ℕ
  expires : ℕ
deriving DecidableEq, Repr

/-- A message to a client. -/
inductive KeyNotice
  | avail (a : AnnouncedKey)
  | purge (h : ℕ)
deriving DecidableEq, Repr

/-- A client: the generation up to which it has been told, the keys announced to it and not withdrawn. -/
structure KeyClient where
  keyGen : ℕ := 0
  announced : List AnnouncedKey := []
deriving DecidableEq, Repr

def KeyEntry.announcement (e : KeyEntry) : AnnouncedKey := ⟨e.hash, e.expires⟩

/-- The client processes a message. -/
def KeyNotice.apply (as : List AnnouncedKey) : KeyNotice → List AnnouncedKey
  | .avail a => a :: as
  | .purge h => as.filter fun a => a.hash ≠ h

/-- What is sent to a new client: all keys. -/
def initNotices (es : List KeyEntry) : List KeyNotice := es.map fun e => .avail e.announcement

/-- What is sent to a client that knows the generation `g`: what has changed since. -/
def updateNotices (es : List KeyEntry) (g : ℕ) : List KeyNotice :=
  (es.filter fun e => g < e.keyGen).map fun e =>
    if e.purge then .purge e.hash else .avail e.announcement

/-- A new client, at generation `gen`. -/
def KeyClient.init (es : List KeyEntry) (gen : ℕ) : KeyClient where
  keyGen := gen
  announced := (initNotices es).foldl KeyNotice.apply []

/-- A client is told what has changed, up to generation `gen`. -/
def KeyClient.update (es : List KeyEntry) (gen : ℕ) (c : KeyClient) : KeyClient where
  keyGen := gen
  announced := (updateNotices es c.keyGen).foldl KeyNotice.apply c.announced

/-- The keys of the client are those that are not withdrawn, besides expired ones. -/
structure InSync (es : List KeyEntry) (now : ℕ) (c : KeyClient) : Prop where
  has : ∀ e ∈ es, e.purge = false → ∃ a ∈ c.announced, a.hash = e.hash
  only : ∀ a ∈ c.announced, a.expires < now ∨ ∃ e ∈ es, e.hash = a.hash ∧ e.purge = false

/-- What a client knows of the keys up to its generation. -/
structure Knows (es : List KeyEntry) (now : ℕ) (c : KeyClient) : Prop where
  has : ∀ e ∈ es, e.keyGen ≤ c.keyGen → e.purge = false → e.announcement ∈ c.announced
  dropped : ∀ e ∈ es, e.keyGen ≤ c.keyGen → e.purge = true →
    e.expires < now ∨ ∀ a ∈ c.announced, a.hash ≠ e.hash
  known : ∀ a ∈ c.announced, a.expires < now ∨ ∃ e ∈ es, e.announcement = a

/-- How keys change: keys that change get a later generation than `g`, and only expired keys disappear. -/
structure Evolves (now g : ℕ) (es es' : List KeyEntry) : Prop where
  stamped : ∀ e ∈ es', e ∈ es ∨ g < e.keyGen
  kept : ∀ e ∈ es, e.expires < now ∨ ∃ e' ∈ es', e'.announcement = e.announcement

section Clients

variable {es es' : List KeyEntry} {now now' g gen : ℕ} {c : KeyClient}

/-! ## Messages -/

theorem mem_foldl_avail (xs : List KeyEntry) (as : List AnnouncedKey) (a : AnnouncedKey) :
    a ∈ (initNotices xs).foldl KeyNotice.apply as ↔ a ∈ as ∨ ∃ e ∈ xs, e.announcement = a := by
  induction xs generalizing as with
  | nil => simp [initNotices]
  | cons e xs ih =>
    change a ∈ (initNotices xs).foldl KeyNotice.apply (e.announcement :: as) ↔ _
    rw [ih, List.mem_cons, List.exists_mem_cons_iff, eq_comm (a := a), or_comm (a := _ = a), or_assoc]

theorem mem_init (a : AnnouncedKey) :
    a ∈ (KeyClient.init es gen).announced ↔ ∃ e ∈ es, e.announcement = a := by
  unfold KeyClient.init
  rw [mem_foldl_avail]
  exact or_iff_right List.not_mem_nil

/-- The message about a key. -/
def KeyEntry.notice (e : KeyEntry) : KeyNotice :=
  if e.purge then .purge e.hash else .avail e.announcement

theorem mem_foldl_notice (xs : List KeyEntry) (hxs : (xs.map KeyEntry.hash).Nodup)
    (as : List AnnouncedKey) (a : AnnouncedKey) :
    a ∈ (xs.map KeyEntry.notice).foldl KeyNotice.apply as ↔
      (a ∈ as ∧ ∀ e ∈ xs, e.purge = true → a.hash ≠ e.hash) ∨
        ∃ e ∈ xs, e.purge = false ∧ e.announcement = a := by
  induction xs generalizing as with
  | nil => simp
  | cons e xs ih =>
    rw [List.map_cons, List.nodup_cons] at hxs
    have hne : ∀ x ∈ xs, x.hash ≠ e.hash := fun x hx h => hxs.1 (h ▸ List.mem_map_of_mem hx)
    rw [List.map_cons, List.foldl_cons, ih hxs.2, List.forall_mem_cons, List.exists_mem_cons_iff]
    cases hp : e.purge with
    | true =>
      have happ : KeyNotice.apply as e.notice = as.filter fun a => a.hash ≠ e.hash := by
        unfold KeyEntry.notice
        rw [hp]
        rfl
      rw [happ, List.mem_filter, decide_eq_true_iff]
      simp only [forall_const, reduceCtorEq, false_and, false_or]
      rw [and_assoc]
    | false =>
      have happ : KeyNotice.apply as e.notice = e.announcement :: as := by
        unfold KeyEntry.notice
        rw [hp]
        rfl
      rw [happ, List.mem_cons]
      simp only [Bool.false_eq_true, false_implies, true_and]
      constructor
      · rintro (⟨rfl | ha, hall⟩ | h)
        · exact Or.inr (Or.inl rfl)
        · exact Or.inl ⟨ha, hall⟩
        · exact Or.inr (Or.inr h)
      · rintro (⟨ha, hall⟩ | rfl | h)
        · exact Or.inl ⟨Or.inr ha, hall⟩
        · exact Or.inl ⟨Or.inl rfl, fun x hx _ h => hne x hx h.symm⟩
        · exact Or.inr h

theorem mem_update (hnd : (es.map KeyEntry.hash).Nodup) (a : AnnouncedKey) :
    a ∈ (c.update es gen).announced ↔
      (a ∈ c.announced ∧ ∀ e ∈ es, c.keyGen < e.keyGen → e.purge = true → a.hash ≠ e.hash) ∨
        ∃ e ∈ es, c.keyGen < e.keyGen ∧ e.purge = false ∧ e.announcement = a := by
  have hsub : (((es.filter fun e => c.keyGen < e.keyGen)).map KeyEntry.hash).Nodup :=
    hnd.sublist (List.filter_sublist.map _)
  have h := mem_foldl_notice _ hsub c.announced a
  simp only [List.mem_filter, decide_eq_true_eq, and_imp, and_assoc] at h
  exact h

/-! ## The invariant -/

theorem Knows.inSync (h : Knows es now c) (hc : ∀ e ∈ es, e.keyGen ≤ c.keyGen) :
    InSync es now c where
  has e he hp := ⟨e.announcement, h.has e he (hc e he) hp, rfl⟩
  only a ha := by
    rcases h.known a ha with hexp | ⟨e, he, rfl⟩
    · exact Or.inl hexp
    cases hp : e.purge with
    | false => exact Or.inr ⟨e, he, rfl, hp⟩
    | true =>
      rcases h.dropped e he (hc e he) hp with hexp | hnot
      · exact Or.inl hexp
      · exact absurd rfl (hnot _ ha)

/-- A new client knows the keys if all that are withdrawn have expired. -/
theorem knows_init (h : ∀ e ∈ es, e.purge = true → e.expires < now) :
    Knows es now (KeyClient.init es gen) where
  has e he _ _ := (mem_init _).2 ⟨e, he, rfl⟩
  dropped e he _ hp := Or.inl (h e he hp)
  known a ha := Or.inr ((mem_init a).1 ha)

/-- A new client is out of sync if a key is withdrawn that has not expired. -/
theorem not_inSync_init (hnd : (es.map KeyEntry.hash).Nodup) {e : KeyEntry} (he : e ∈ es)
    (hp : e.purge = true) (hexp : ¬ e.expires < now) : ¬ InSync es now (KeyClient.init es gen) := by
  intro h
  rcases h.only e.announcement ((mem_init _).2 ⟨e, he, rfl⟩) with hlt | ⟨e', he', hhash, hp'⟩
  · exact hexp hlt
  · have := List.inj_on_of_nodup_map hnd he' he hhash
    rw [this, hp] at hp'
    exact Bool.noConfusion hp'

theorem Knows.update (h : Knows es now c) (hnd : (es.map KeyEntry.hash).Nodup) :
    Knows es now (c.update es gen) where
  has e he _ hp := by
    rw [mem_update hnd]
    by_cases hg : c.keyGen < e.keyGen
    · exact Or.inr ⟨e, he, hg, hp, rfl⟩
    · refine Or.inl ⟨h.has e he (not_lt.1 hg) hp, fun e' he' _ hp' hhash => ?_⟩
      have := List.inj_on_of_nodup_map hnd he he' hhash
      rw [this, hp'] at hp
      exact Bool.noConfusion hp
  dropped e he _ hp := by
    have hnew : ∀ e' ∈ es, e'.purge = false → e'.hash ≠ e.hash := fun e' he' hp' hhash => by
      rw [List.inj_on_of_nodup_map hnd he' he hhash, hp] at hp'
      exact Bool.noConfusion hp'
    by_cases hg : c.keyGen < e.keyGen
    · refine Or.inr fun a ha => ?_
      rcases (mem_update hnd a).1 ha with ⟨-, hall⟩ | ⟨e', he', -, hp', rfl⟩
      · exact hall e he hg hp
      · exact hnew e' he' hp'
    · rcases h.dropped e he (not_lt.1 hg) hp with hexp | hnot
      · exact Or.inl hexp
      · refine Or.inr fun a ha => ?_
        rcases (mem_update hnd a).1 ha with ⟨hold, -⟩ | ⟨e', he', -, hp', rfl⟩
        · exact hnot a hold
        · exact hnew e' he' hp'
  known a ha := by
    rcases (mem_update hnd a).1 ha with ⟨hold, -⟩ | ⟨e', he', -, -, rfl⟩
    · exact h.known a hold
    · exact Or.inr ⟨e', he', rfl⟩

theorem Knows.evolve (h : Knows es now c) (hev : Evolves now g es es') (hg : c.keyGen ≤ g) :
    Knows es' now c where
  has e he hgen hp := by
    rcases hev.stamped e he with hold | hlt
    · exact h.has e hold hgen hp
    · exact absurd (hlt.trans_le hgen) (not_lt.2 hg)
  dropped e he hgen hp := by
    rcases hev.stamped e he with hold | hlt
    · exact h.dropped e hold hgen hp
    · exact absurd (hlt.trans_le hgen) (not_lt.2 hg)
  known a ha := by
    rcases h.known a ha with hexp | ⟨e, he, rfl⟩
    · exact Or.inl hexp
    · exact hev.kept e he

theorem Knows.later (h : Knows es now c) (hnow : now ≤ now') : Knows es now' c where
  has := h.has
  dropped e he hg hp := (h.dropped e he hg hp).imp_left fun hlt => hlt.trans_le hnow
  known a ha := (h.known a ha).imp_left fun hlt => hlt.trans_le hnow

/-! ## Changes -/

theorem Evolves.trans {es'' : List KeyEntry} (h1 : Evolves now g es es') (h2 : Evolves now g es' es'') :
    Evolves now g es es'' where
  stamped e he := by
    rcases h2.stamped e he with h | h
    · exact h1.stamped e h
    · exact Or.inr h
  kept e he := by
    rcases h1.kept e he with h | ⟨e', he', ha⟩
    · exact Or.inl h
    rcases h2.kept e' he' with h | ⟨e'', he'', ha'⟩
    · have hexp : e'.expires = e.expires := congrArg AnnouncedKey.expires ha
      exact Or.inl (hexp ▸ h)
    · exact Or.inr ⟨e'', he'', ha'.trans ha⟩

end Clients

/-! ## Rosters -/

/-- The keys of a service, the hash of the next key, and the generation. -/
structure Roster where
  entries : List KeyEntry
  nextKey : ℕ
  keyGen : ℕ

/-- Hashes are used once, and generations are not later than the current one. -/
structure Roster.Ok (R : Roster) : Prop where
  nodup : (R.entries.map KeyEntry.hash).Nodup
  below : ∀ e ∈ R.entries, e.hash < R.nextKey
  stamped : ∀ e ∈ R.entries, e.keyGen ≤ R.keyGen

/-- Keys are added, in a later generation than `g`, and expired ones removed. -/
structure Renewed (now g : ℕ) (R R' : Roster) : Prop where
  new : ∀ e ∈ R'.entries, e ∈ R.entries ∨ R.nextKey ≤ e.hash ∧ e.purge = false ∧ g < e.keyGen
  kept : ∀ e ∈ R.entries, e.expires < now ∨ e ∈ R'.entries
  ok : R.Ok → R'.Ok
  next_le : R.nextKey ≤ R'.nextKey
  gen_le : R.keyGen ≤ R'.keyGen

/-- What the clients know of a roster. -/
def Follows (R : Roster) (now : ℕ) (cs : List KeyClient) : Prop :=
  ∀ c ∈ cs, c.keyGen ≤ R.keyGen ∧ Knows R.entries now c

/-- The clients that have been told everything are in sync. -/
def AllInSync (R : Roster) (now : ℕ) (cs : List KeyClient) : Prop :=
  ∀ c ∈ cs, c.keyGen = R.keyGen → InSync R.entries now c

section Rosters

variable {R R' R'' : Roster} {now now' g : ℕ} {cs : List KeyClient}

theorem Renewed.refl (now g : ℕ) (R : Roster) : Renewed now g R R where
  new _ he := Or.inl he
  kept _ he := Or.inr he
  ok h := h
  next_le := le_rfl
  gen_le := le_rfl

theorem Renewed.trans (h1 : Renewed now g R R') (h2 : Renewed now g R' R'') : Renewed now g R R'' where
  new e he := by
    rcases h2.new e he with h | ⟨hn, hp, hg⟩
    · exact h1.new e h
    · exact Or.inr ⟨h1.next_le.trans hn, hp, hg⟩
  kept e he := by
    rcases h1.kept e he with h | h
    · exact Or.inl h
    · exact h2.kept e h
  ok h := h2.ok (h1.ok h)
  next_le := h1.next_le.trans h2.next_le
  gen_le := h1.gen_le.trans h2.gen_le

theorem Renewed.evolves (h : Renewed now g R R') : Evolves now g R.entries R'.entries where
  stamped e he := (h.new e he).imp_right fun h => h.2.2
  kept e he := (h.kept e he).imp_right fun h => ⟨e, h, rfl⟩

theorem Roster.Ok.perm {es : List KeyEntry} {n gen : ℕ} (h : R.Ok) (hp : es.Perm R.entries)
    (hn : R.nextKey ≤ n) (hg : R.keyGen ≤ gen) : (⟨es, n, gen⟩ : Roster).Ok where
  nodup := (hp.map _).nodup_iff.2 h.nodup
  below e he := (h.below e (hp.mem_iff.1 he)).trans_le hn
  stamped e he := (h.stamped e (hp.mem_iff.1 he)).trans hg

/-- A new generation, and another order. -/
theorem Renewed.of_perm {es : List KeyEntry} {gen : ℕ} (hp : es.Perm R.entries)
    (hg : R.keyGen ≤ gen) : Renewed now g R ⟨es, R.nextKey, gen⟩ where
  new _ he := Or.inl (hp.mem_iff.1 he)
  kept _ he := Or.inr (hp.mem_iff.2 he)
  ok h := h.perm hp le_rfl hg
  next_le := le_rfl
  gen_le := hg

/-- A new key. -/
theorem Renewed.add {e : KeyEntry} {es : List KeyEntry} (hp : es.Perm (e :: R.entries))
    (hhash : e.hash = R.nextKey) (hpurge : e.purge = false) (hg : g < e.keyGen)
    (hgen : e.keyGen ≤ R.keyGen) : Renewed now g R ⟨es, R.nextKey + 1, R.keyGen⟩ where
  new x hx := by
    rcases List.mem_cons.1 (hp.mem_iff.1 hx) with rfl | hx
    · exact Or.inr ⟨hhash.ge, hpurge, hg⟩
    · exact Or.inl hx
  kept x hx := Or.inr (hp.mem_iff.2 (List.mem_cons_of_mem _ hx))
  ok h := by
    refine ⟨(hp.map KeyEntry.hash).nodup_iff.2 ?_, fun x hx => ?_, fun x hx => ?_⟩
    · rw [List.map_cons, List.nodup_cons]
      refine ⟨fun hmem => ?_, h.nodup⟩
      obtain ⟨x, hx, hxe⟩ := List.mem_map.1 hmem
      exact (h.below x hx).ne (hxe.trans hhash)
    · rcases List.mem_cons.1 (hp.mem_iff.1 hx) with rfl | hx
      · exact hhash.trans_lt (Nat.lt_succ_self _)
      · exact (h.below x hx).trans (Nat.lt_succ_self _)
    · rcases List.mem_cons.1 (hp.mem_iff.1 hx) with rfl | hx
      · exact hgen
      · exact h.stamped x hx
  next_le := Nat.le_succ _
  gen_le := le_rfl

/-- Expired keys are removed. -/
theorem Renewed.remove {es : List KeyEntry} (hsub : es.Sublist R.entries)
    (h : ∀ e ∈ R.entries, e ∉ es → e.expires < now) :
    Renewed now g R ⟨es, R.nextKey, R.keyGen⟩ where
  new _ he := Or.inl (hsub.subset he)
  kept e he := by
    by_cases hmem : e ∈ es
    · exact Or.inr hmem
    · exact Or.inl (h e he hmem)
  ok h := ⟨h.nodup.sublist (hsub.map _), fun e he => h.below e (hsub.subset he),
    fun e he => h.stamped e (hsub.subset he)⟩
  next_le := le_rfl
  gen_le := le_rfl

theorem Follows.evolve (h : Follows R now cs) (hev : Evolves now R.keyGen R.entries R'.entries)
    (hg : R.keyGen ≤ R'.keyGen) : Follows R' now cs :=
  fun c hc => ⟨(h c hc).1.trans hg, (h c hc).2.evolve hev (h c hc).1⟩

theorem Follows.later (h : Follows R now cs) (hnow : now ≤ now') : Follows R now' cs :=
  fun c hc => ⟨(h c hc).1, (h c hc).2.later hnow⟩

/-- A client connects while all withdrawn keys have expired. -/
theorem Follows.init (h : Follows R now cs)
    (hp : ∀ e ∈ R.entries, e.purge = true → e.expires < now) :
    Follows R now (cs ++ [KeyClient.init R.entries R.keyGen]) := by
  intro c hc
  rcases List.mem_append.1 hc with hc | hc
  · exact h c hc
  · rw [List.mem_singleton.1 hc]
    exact ⟨le_rfl, knows_init hp⟩

theorem mem_modify {α : Type} {f : α → α} {i : ℕ} {xs : List α} {x : α} (h : x ∈ xs.modify i f) :
    x ∈ xs ∨ ∃ y ∈ xs, x = f y := by
  induction xs generalizing i with
  | nil =>
    rw [List.modify_nil] at h
    exact Or.inl h
  | cons y xs ih =>
    cases i with
    | zero =>
      rcases List.mem_cons.1 h with rfl | h
      · exact Or.inr ⟨y, List.mem_cons_self, rfl⟩
      · exact Or.inl (List.mem_cons_of_mem _ h)
    | succ i =>
      rcases List.mem_cons.1 h with rfl | h
      · exact Or.inl List.mem_cons_self
      · rcases ih h with h | ⟨z, hz, he⟩
        · exact Or.inl (List.mem_cons_of_mem _ h)
        · exact Or.inr ⟨z, List.mem_cons_of_mem _ hz, he⟩

theorem Follows.update (h : Follows R now cs) (hok : R.Ok) (i : ℕ) :
    Follows R now (cs.modify i (KeyClient.update R.entries R.keyGen)) := by
  intro c hc
  rcases mem_modify hc with hc | ⟨c', hc', rfl⟩
  · exact h c hc
  · exact ⟨le_rfl, (h c' hc').2.update hok.nodup⟩

theorem Follows.allInSync (h : Follows R now cs) (hok : R.Ok) : AllInSync R now cs :=
  fun c hc hgen => (h c hc).2.inSync fun e he => (hok.stamped e he).trans hgen.ge

/-- Whether all clients are in sync after a client has connected. -/
theorem allInSync_init (h : Follows R now cs) (hok : R.Ok) :
    AllInSync R now (cs ++ [KeyClient.init R.entries R.keyGen]) ↔
      ∀ e ∈ R.entries, e.purge = true → e.expires < now := by
  constructor
  · intro hs e he hp
    by_contra hexp
    exact not_inSync_init hok.nodup he hp hexp
      (hs _ (List.mem_append_right _ (List.mem_singleton_self _)) rfl)
  · intro hp
    exact (h.init hp).allInSync hok

end Rosters

end TalerExchange
