import TalerExchange.Json.Contract

/-!
# Forgetting members of a contract

The hash of a contract before and after members have been forgotten.

* `MemberOutcome`, `outcome`: what the loop of `forget` does with a member, by the members `$forgettable` and
  `$forgotten` at its beginning; `forgetMembers_spec`: the lookups after the loop;
* `contractPartForget_agree`: the call of one object; `Agree.member`, `Agree.element`: a part of a larger
  value;
* `CarefulAt`: the calls that are harmless;
* **`contractHash_forgetAll`**: they keep the hash of a contract.
-/

namespace TalerExchange

open Assoc Json

/-! ## The loop over the members -/

/-- What happens to a member: nothing, it has been forgotten earlier, it is kept, it is hashed. -/
inductive MemberOutcome
  | skipped
  | already
  | kept (t : Json)
  | hashed (hc : String)

/-- What is kept. -/
def MemberOutcome.kept? : MemberOutcome → Option Json
  | .kept t => some t
  | _ => none

/-- What is put into `$forgotten`. -/
def MemberOutcome.hashed? : MemberOutcome → Option Json
  | .hashed hc => some (.string hc)
  | _ => none

/-- The state after a member. -/
def MemberOutcome.apply (st : ForgetState) (key : String) : MemberOutcome → Except HashError ForgetState
  | .skipped => .ok st
  | .already => .ok { st with ret := del st.ret key }
  | .kept t => .ok { st with ret := set st.ret key t }
  | .hashed hc =>
    match (st.rx.getD (.object [])).set? key (.string hc) with
    | none => .error .sysErr
    | some rx => .ok { st with fg := st.fg.bind (·.del? key), rx := some rx }

section Loop

variable (hash : Json → Option String → String)

/-- What happens to a member, by the values of `$forgettable` and `$forgotten`. -/
def outcome (fg rx : Option Json) (key : String) (value : Json) (t : Except HashError Json) :
    Except HashError MemberOutcome :=
  if key = "$forgettable" ∨ isSame fg value then .ok .skipped
  else if isSame rx value then .ok .skipped
  else if (objectGet rx key).isSome then .ok .already
  else match t with
    | .error e => .error e
    | .ok t =>
      match objectGet fg key with
      | none => .ok (.kept t)
      | some salt =>
        match salt.stringValue? with
        | none => .error .no
        | some salt => (dumpAndHash hash t (some salt)).map .hashed

variable {hash}

theorem forgetMember_eq (st : ForgetState) (key : String) (value : Json)
    (t : Except HashError Json) :
    forgetMember hash st key value t =
      (outcome hash st.fg st.rx key value t).bind (MemberOutcome.apply st key) := by
  unfold forgetMember outcome
  split_ifs
  · rfl
  · rfl
  · rfl
  · cases t with
    | error e => rfl
    | ok t =>
      cases objectGet st.fg key with
      | none => rfl
      | some salt =>
        dsimp only
        unfold hashMember
        cases salt.stringValue? with
        | none => rfl
        | some s =>
          dsimp only
          cases dumpAndHash hash t (some s) with
          | error e => rfl
          | ok hc =>
            cases (st.rx.getD (.object [])).set? key (.string hc) <;> rfl

/-- The outcome depends on few things. -/
theorem outcome_congr {fg fg' rx rx' : Option Json} {key : String} {value value' : Json}
    {t : Except HashError Json} (hfg : objectGet fg key = objectGet fg' key)
    (hrx : objectGet rx key = objectGet rx' key) (hsf : isSame fg value = isSame fg' value')
    (hsr : isSame rx value = isSame rx' value') :
    outcome hash fg rx key value t = outcome hash fg' rx' key value' t := by
  unfold outcome
  rw [hfg, hrx, hsf, hsr]

/-- `$forgotten` is not there, or it is an object. -/
def IsTable (rx : Option Json) : Prop := ∀ j, rx = some j → ∃ r, j = .object r ∧ Keyed r

theorem isTable_object {r : List (String × Json)} (h : Keyed r) : IsTable (some (.object r)) :=
  fun _ hj => ⟨r, (Option.some.inj hj).symm, h⟩

theorem IsTable.isSame {rx : Option Json} (h : IsTable rx) (value : Json) : isSame rx value = false := by
  cases rx with
  | none => rfl
  | some j =>
    obtain ⟨r, rfl, -⟩ := h j rfl
    rfl

/-- An entry is put into what may not be there yet. -/
theorem IsTable.set {rx : Option Json} (h : IsTable rx) (key : String) (v : Json) :
    ∃ rx', (rx.getD (.object [])).set? key v = some rx' ∧ IsTable (some rx') ∧
      ∀ x, objectGet (some rx') x = if key = x then some v else objectGet rx x := by
  cases rx with
  | none =>
    exact ⟨_, rfl, isTable_object (keyed_set keyed_nil key v), fun x => get_set [] key x v⟩
  | some j =>
    obtain ⟨r, rfl, hr⟩ := h j rfl
    exact ⟨_, rfl, isTable_object (keyed_set hr key v), fun x => get_set r key x v⟩

theorem objectGet_del (fg : Option Json) (key x : String) :
    objectGet (fg.bind (·.del? key)) x = if key = x then none else objectGet fg x := by
  cases fg with
  | none =>
    change none = _
    split_ifs <;> rfl
  | some j =>
    cases j with
    | object m => exact get_del m key x
    | _ =>
      change none = _
      split_ifs <;> rfl

theorem isSame_del (fg : Option Json) (key : String) (value : Json) (h : (objectGet fg key).isSome) :
    isSame (fg.bind (·.del? key)) value = isSame fg value := by
  cases fg with
  | none => rfl
  | some j =>
    cases j with
    | object m => rfl
    | _ => exact nomatch h

/-- A state in which the members to come are as they were at the beginning. -/
structure Started (fg rx : Option Json) (st : ForgetState) (m : List (String × Json)) : Prop where
  table : IsTable st.rx
  keyed : Keyed st.ret
  sameFg : ∀ value, isSame st.fg value = isSame fg value
  sameRx : ∀ value, isSame st.rx value = isSame rx value
  fg : ∀ k, get m k ≠ none → objectGet st.fg k = objectGet fg k
  rx : ∀ k, get m k ≠ none → objectGet st.rx k = objectGet rx k
  ret : ∀ k, get m k ≠ none → get st.ret k = none

theorem outcome_hashed {fg rx : Option Json} {key : String} {value : Json}
    {t : Except HashError Json} {hc : String}
    (h : outcome hash fg rx key value t = .ok (.hashed hc)) : (objectGet fg key).isSome := by
  unfold outcome at h
  split_ifs at h
  · exact nomatch h
  · exact nomatch h
  · exact nomatch h
  · cases t with
    | error e => exact nomatch h
    | ok t =>
      cases hsalt : objectGet fg key with
      | none =>
        rw [hsalt] at h
        exact nomatch h
      | some salt => rfl

/-- The step: the state after one member. -/
theorem Started.step {fg rx : Option Json} {st : ForgetState} {key : String} {value : Json}
    {m : List (String × Json)} {o : MemberOutcome} (hst : Started fg rx st ((key, value) :: m))
    (hkey : get m key = none) (ho : ∀ hc, o = .hashed hc → (objectGet fg key).isSome) :
    ∃ st', o.apply st key = .ok st' ∧ Started fg rx st' m ∧
      (∀ x, get st'.ret x = if key = x then o.kept? else get st.ret x) ∧
      ∀ x, objectGet st'.rx x =
        if key = x then o.hashed?.or (objectGet st.rx x) else objectGet st.rx x := by
  have hne : ∀ {k}, get m k ≠ none → key ≠ k := by
    rintro k hk rfl
    exact hk hkey
  have hin : ∀ {k}, get m k ≠ none → get ((key, value) :: m) k ≠ none := by
    intro k hk
    rwa [get_cons, if_neg (hne hk)]
  have hself : get ((key, value) :: m) key ≠ none := by
    rw [get_cons, if_pos rfl]
    exact fun h => nomatch h
  have hret := hst.ret key hself
  cases o with
  | skipped =>
    refine ⟨st, rfl, ⟨hst.table, hst.keyed, hst.sameFg, hst.sameRx, fun k hk => hst.fg k (hin hk),
      fun k hk => hst.rx k (hin hk), fun k hk => hst.ret k (hin hk)⟩, fun x => ?_, fun x => ?_⟩
    · split_ifs with hx
      · rw [← hx, hret]
        rfl
      · rfl
    · split_ifs <;> rfl
  | already =>
    refine ⟨_, rfl, ⟨hst.table, keyed_del hst.keyed _, hst.sameFg, hst.sameRx,
      fun k hk => hst.fg k (hin hk), fun k hk => hst.rx k (hin hk), fun k hk => ?_⟩,
      fun x => get_del st.ret key x, fun x => ?_⟩
    · rw [get_del, if_neg (hne hk)]
      exact hst.ret k (hin hk)
    · split_ifs <;> rfl
  | kept t =>
    refine ⟨_, rfl, ⟨hst.table, keyed_set hst.keyed _ _, hst.sameFg, hst.sameRx,
      fun k hk => hst.fg k (hin hk), fun k hk => hst.rx k (hin hk), fun k hk => ?_⟩,
      fun x => get_set st.ret key x t, fun x => ?_⟩
    · rw [get_set, if_neg (hne hk)]
      exact hst.ret k (hin hk)
    · split_ifs <;> rfl
  | hashed hc =>
    obtain ⟨rx', hset, htable, hget⟩ := hst.table.set key (.string hc)
    have hsalt : (objectGet st.fg key).isSome := by
      rw [hst.fg key hself]
      exact ho hc rfl
    refine ⟨{ st with fg := st.fg.bind (·.del? key), rx := some rx' }, ?_,
      ⟨htable, hst.keyed, fun v => ?_, fun v => ?_, fun k hk => ?_, fun k hk => ?_,
        fun k hk => hst.ret k (hin hk)⟩, fun x => ?_, fun x => ?_⟩
    · dsimp only [MemberOutcome.apply]
      rw [hset]
    · exact (isSame_del st.fg key v hsalt).trans (hst.sameFg v)
    · exact (htable.isSame v).trans ((hst.table.isSame v).symm.trans (hst.sameRx v))
    · rw [objectGet_del, if_neg (hne hk)]
      exact hst.fg k (hin hk)
    · rw [hget, if_neg (hne hk)]
      exact hst.rx k (hin hk)
    · split_ifs with hx
      · rw [← hx, hret]
        rfl
      · rfl
    · rw [hget]
      split_ifs <;> rfl

/-- The lookups after the loop. -/
structure LoopResult (hash : Json → Option String → String) (fg rx : Option Json) (st : ForgetState)
    (m : List (String × Json)) (st' : ForgetState) : Prop where
  table : IsTable st'.rx
  keyed : Keyed st'.ret
  ok : ∀ k v, get m k = some v → ∃ o, outcome hash fg rx k v (forget hash v) = .ok o
  retNone : ∀ k, get m k = none → get st'.ret k = get st.ret k
  rxNone : ∀ k, get m k = none → objectGet st'.rx k = objectGet st.rx k
  ret : ∀ k v o, get m k = some v → outcome hash fg rx k v (forget hash v) = .ok o →
    get st'.ret k = o.kept?
  rx : ∀ k v o, get m k = some v → outcome hash fg rx k v (forget hash v) = .ok o →
    objectGet st'.rx k = o.hashed?.or (objectGet rx k)

theorem Started.forgetMember_eq {fg rx : Option Json} {st : ForgetState} {key : String} {value : Json}
    {m : List (String × Json)} (hst : Started fg rx st ((key, value) :: m))
    (t : Except HashError Json) :
    forgetMember hash st key value t =
      (outcome hash fg rx key value t).bind (MemberOutcome.apply st key) := by
  have hself : get ((key, value) :: m) key ≠ none := by
    rw [get_cons, if_pos rfl]
    exact fun h => nomatch h
  rw [TalerExchange.forgetMember_eq, outcome_congr (hst.fg key hself) (hst.rx key hself)
    (hst.sameFg value) (hst.sameRx value)]

/-- **The loop of `forget` by lookups.** -/
theorem forgetMembers_spec {fg rx : Option Json} : ∀ {m : List (String × Json)} {st st' : ForgetState},
    Keyed m → Started fg rx st m → forgetMembers hash st m = .ok st' →
      LoopResult hash fg rx st m st'
  | [], st, st', _, hst, h => by
    rw [forgetMembers_nil] at h
    cases h
    exact ⟨hst.table, hst.keyed, fun _ _ h => (nomatch h), fun _ _ => rfl, fun _ _ => rfl,
      fun _ _ _ h => (nomatch h), fun _ _ _ h => (nomatch h)⟩
  | (key, value) :: m, st, st', hkeyed, hst, h => by
    obtain ⟨hkey, hm⟩ := keyed_cons.1 hkeyed
    rw [forgetMembers, hst.forgetMember_eq] at h
    cases ho : outcome hash fg rx key value (forget hash value) with
    | error e =>
      rw [ho] at h
      cases h
    | ok o =>
      obtain ⟨st₁, happ, hst₁, hret, hrx⟩ := hst.step hkey (o := o)
        (fun hc hh => outcome_hashed (hh ▸ ho))
      rw [ho] at h
      dsimp only [Except.bind] at h
      rw [happ] at h
      have hres := forgetMembers_spec hm hst₁ h
      have hself : get ((key, value) :: m) key ≠ none := by
        rw [get_cons, if_pos rfl]
        intro h
        cases h
      refine ⟨hres.table, hres.keyed, fun k v hk => ?_, fun k hk => ?_, fun k hk => ?_,
        fun k v o' hk ho' => ?_, fun k v o' hk ho' => ?_⟩
      · rw [get_cons] at hk
        split_ifs at hk with hx
        · cases hk
          exact ⟨o, hx ▸ ho⟩
        · exact hres.ok k v hk
      · rw [get_cons] at hk
        split_ifs at hk with hx
        rw [hres.retNone k hk, hret, if_neg hx]
      · rw [get_cons] at hk
        split_ifs at hk with hx
        rw [hres.rxNone k hk, hrx, if_neg hx]
      · rw [get_cons] at hk
        split_ifs at hk with hx
        · cases hk
          subst hx
          cases ho.symm.trans ho'
          rw [hres.retNone key hkey, hret, if_pos rfl]
        · exact hres.ret k v o' hk ho'
      · rw [get_cons] at hk
        split_ifs at hk with hx
        · cases hk
          subst hx
          cases ho.symm.trans ho'
          rw [hres.rxNone key hkey, hrx, if_pos rfl, hst.rx key hself]
        · exact hres.rx k v o' hk ho'

/-- The loop succeeds if every member does. -/
theorem forgetMembers_ok {fg rx : Option Json} : ∀ {m : List (String × Json)} {st : ForgetState},
    Keyed m → Started fg rx st m →
      (∀ k v, get m k = some v → ∃ o, outcome hash fg rx k v (forget hash v) = .ok o) →
        ∃ st', forgetMembers hash st m = .ok st'
  | [], st, _, _, _ => ⟨st, rfl⟩
  | (key, value) :: m, st, hkeyed, hst, hok => by
    obtain ⟨hkey, hm⟩ := keyed_cons.1 hkeyed
    obtain ⟨o, ho⟩ := hok key value (if_pos rfl)
    obtain ⟨st₁, happ, hst₁, -, -⟩ := hst.step hkey (o := o) (fun hc hh => outcome_hashed (hh ▸ ho))
    obtain ⟨st', hst'⟩ := forgetMembers_ok hm hst₁ fun k v hk => by
      refine hok k v ?_
      rw [get_cons, if_neg, hk]
      rintro rfl
      rw [hkey] at hk
      exact nomatch hk
    refine ⟨st', ?_⟩
    rw [forgetMembers, hst.forgetMember_eq, ho]
    dsimp only [Except.bind]
    rw [happ]
    exact hst'

/-- The state at the beginning of the loop. -/
theorem started_init {m : List (String × Json)} (h : IsTable (get m "$forgotten")) :
    Started (get m "$forgettable") (get m "$forgotten")
      ⟨get m "$forgettable", get m "$forgotten", []⟩ m :=
  ⟨h, keyed_nil, fun _ => rfl, fun _ => rfl, fun _ _ => rfl, fun _ _ => rfl, fun _ _ => rfl⟩

/-! ## The call of one object -/

theorem forget_object {m : List (String × Json)} {t : Json} :
    forget hash (.object m) = .ok t ↔
      ∃ st, forgetMembers hash ⟨get m "$forgettable", get m "$forgotten", []⟩ m = .ok st ∧
        st.result = t := by
  rw [forget]
  cases forgetMembers hash ⟨get m "$forgettable", get m "$forgotten", []⟩ m with
  | error e => exact iff_of_false (fun h => nomatch h) (fun ⟨_, h, _⟩ => nomatch h)
  | ok st =>
    constructor
    · intro h
      exact ⟨st, rfl, Except.ok.inj h⟩
    · rintro ⟨st', hst', rfl⟩
      cases hst'
      rfl

/-- What a call that succeeds has found, and what it leaves. -/
structure PartForgotten (hash : Json → Option String → String) (m g r : List (String × Json))
    (field : String) (part fp : Json) (salt hc : String) : Prop where
  getPart : get m field = some part
  getFg : get m "$forgettable" = some (.object g)
  getRx : (get m "$forgotten").getD (.object []) = .object r
  notYet : get r field = none
  getSalt : get g field = some (.string salt)
  forgotten : forget hash part = .ok fp
  hashed : dumpAndHash hash fp (some salt) = .ok hc

/-- The members after a call. -/
def afterForget (m g r : List (String × Json)) (field hc : String) : List (String × Json) :=
  del (set (set m "$forgettable" (.object (del g field))) "$forgotten"
    (.object (set r field (.string hc)))) field

theorem contractPartForget_eq_ok {json json' : Json} {field : String}
    (h : contractPartForget hash json field = .ok json') :
    ∃ m g r part fp salt hc, json = .object m ∧
      PartForgotten hash m g r field part fp salt hc ∧
      json' = .object (afterForget m g r field hc) := by
  unfold contractPartForget at h
  cases json with
  | object m =>
    dsimp only at h
    cases hpart : get m field with
    | none => rw [hpart] at h; exact nomatch h
    | some part =>
    cases hfg : get m "$forgettable" with
    | none => rw [hpart, hfg] at h; exact nomatch h
    | some fg =>
    rw [hpart, hfg] at h
    dsimp only at h
    generalize hrx : (get m "$forgotten").getD (.object []) = rx at h
    cases hnew : rx.get? field with
    | some v =>
      rw [hnew] at h
      cases part <;> exact nomatch h
    | none =>
    cases hsalt : (fg.get? field).bind stringValue? with
    | none => rw [hnew, hsalt] at h; exact nomatch h
    | some salt =>
    cases hfp : forget hash part with
    | error e => rw [hnew, hsalt, hfp] at h; exact nomatch h
    | ok fp =>
    cases hhc : dumpAndHash hash fp (some salt) with
    | error e => rw [hnew, hsalt, hfp] at h; dsimp only at h; rw [hhc] at h; exact nomatch h
    | ok hc =>
    rw [hnew, hsalt, hfp] at h
    dsimp only at h
    rw [hhc] at h
    cases fg with
    | object g =>
      cases rx with
      | object r =>
        obtain ⟨v, hv, hvs⟩ := Option.bind_eq_some_iff.1 hsalt
        have hstr : v = .string salt := by
          cases v with
          | string s =>
            cases hvs
            rfl
          | _ => exact nomatch hvs
        subst hstr
        exact ⟨m, g, r, part, fp, salt, hc, rfl, ⟨hpart, hfg, hrx, hnew, hv, hfp, hhc⟩,
          (Except.ok.inj h).symm⟩
      | _ => exact nomatch h
    | _ => exact nomatch hsalt
  | _ => exact nomatch h

theorem get_afterForget (m g r : List (String × Json)) (field hc x : String) :
    get (afterForget m g r field hc) x =
      if field = x then none
      else if "$forgotten" = x then some (.object (set r field (.string hc)))
      else if "$forgettable" = x then some (.object (del g field))
      else get m x := by
  unfold afterForget
  rw [get_del, get_set, get_set]

theorem keyed_afterForget {m : List (String × Json)} (h : Keyed m) (g r : List (String × Json))
    (field hc : String) : Keyed (afterForget m g r field hc) :=
  keyed_del (keyed_set (keyed_set h _ _) _ _) _

/-! ### A new entry of `$forgotten` -/

theorem forgetMembers_append : ∀ (m m' : List (String × Json)) (st : ForgetState),
    forgetMembers hash st (m ++ m') =
      (forgetMembers hash st m).bind fun st => forgetMembers hash st m'
  | [], _, _ => rfl
  | (key, value) :: m, m', st => by
    rw [List.cons_append, forgetMembers, forgetMembers]
    cases forgetMember hash st key value (forget hash value) with
    | error e => rfl
    | ok st => exact forgetMembers_append m m' st

/-- `NULL` or an object. -/
def IsObject (o : Option Json) : Prop := ∀ j, o = some j → ∃ r, j = .object r

/-- In the loop salts are only removed, and entries of `$forgotten` only added. -/
structure Advanced (st st' : ForgetState) : Prop where
  fg : ∀ x salt, objectGet st'.fg x = some salt → objectGet st.fg x = some salt
  rx : ∀ x, (objectGet st.rx x).isSome → (objectGet st'.rx x).isSome
  isObject : IsObject st.rx → IsObject st'.rx

theorem Advanced.refl (st : ForgetState) : Advanced st st :=
  ⟨fun _ _ h => h, fun _ h => h, fun h => h⟩

theorem advanced_apply {st st' : ForgetState} {key : String} {o : MemberOutcome}
    (h : o.apply st key = .ok st') : Advanced st st' := by
  cases o with
  | skipped =>
    cases h
    exact .refl _
  | already =>
    cases h
    exact ⟨fun _ _ h => h, fun _ h => h, fun h => h⟩
  | kept t =>
    cases h
    exact ⟨fun _ _ h => h, fun _ h => h, fun h => h⟩
  | hashed hc =>
    dsimp only [MemberOutcome.apply] at h
    cases hset : (st.rx.getD (.object [])).set? key (.string hc) with
    | none =>
      rw [hset] at h
      cases h
    | some rx =>
      rw [hset] at h
      cases h
      cases hr : st.rx.getD (.object []) with
      | object r =>
        rw [hr] at hset
        cases hset
        refine ⟨fun x salt hx => ?_, fun x hx => ?_, fun _ j hj => ⟨_, (Option.some.inj hj).symm⟩⟩
        · rw [objectGet_del] at hx
          split_ifs at hx
          exact hx
        · change (get (set r key (.string hc)) x).isSome
          rw [get_set]
          split_ifs
          · rfl
          · cases hst : st.rx with
            | none =>
              rw [hst] at hx
              cases hx
            | some j =>
              rw [hst] at hx hr
              rw [show j = .object r from hr] at hx
              exact hx
      | _ =>
        rw [hr] at hset
        cases hset

theorem forgetMembers_advanced : ∀ {m : List (String × Json)} {st st' : ForgetState},
    forgetMembers hash st m = .ok st' → Advanced st st'
  | [], st, st', h => by
    rw [forgetMembers_nil] at h
    cases h
    exact .refl _
  | (key, value) :: m, st, st', h => by
    rw [forgetMembers, forgetMember_eq] at h
    cases ho : outcome hash st.fg st.rx key value (forget hash value) with
    | error e =>
      rw [ho] at h
      cases h
    | ok o =>
      rw [ho] at h
      dsimp only [Except.bind] at h
      cases happ : o.apply st key with
      | error e =>
        rw [happ] at h
        cases h
      | ok st₁ =>
        rw [happ] at h
        have h₁ := advanced_apply happ
        have h₂ := forgetMembers_advanced h
        exact ⟨fun x salt hx => h₁.fg x salt (h₂.fg x salt hx), fun x hx => h₂.rx x (h₁.rx x hx),
          fun hj => h₂.isObject (h₁.isObject hj)⟩

/-- `$forgotten` has no salt for the field that does not lead to a hash. -/
def NestedOk (rx : Option Json) (field : String) : Prop :=
  ∀ salt, objectGet (objectGet rx "$forgettable") field = some salt →
    (objectGet (objectGet rx "$forgotten") field).isSome ∨
      salt.stringValue?.isSome ∧ IsObject (objectGet rx "$forgotten")

theorem forget_set_string {r : List (String × Json)} {field hc : String} {t : Json}
    (hfield : field ≠ "$forgettable" ∧ field ≠ "$forgotten") (hnew : get r field = none)
    (hok : NestedOk (some (.object r)) field) (ht : forget hash (.object r) = .ok t) :
    ∃ t', forget hash (.object (set r field (.string hc))) = .ok t' := by
  obtain ⟨st, hst, -⟩ := forget_object.1 ht
  have hadv := forgetMembers_advanced hst
  have hstep : ∃ st', forgetMember hash st field (.string hc) (.ok (.string hc)) = .ok st' := by
    unfold forgetMember
    split_ifs with h₁ h₂ h₃
    · exact ⟨_, rfl⟩
    · exact ⟨_, rfl⟩
    · exact ⟨_, rfl⟩
    · cases hsalt : objectGet st.fg field with
      | none => exact ⟨_, rfl⟩
      | some salt =>
        rcases hok salt (hadv.fg field salt hsalt) with hin | ⟨hstr, hobj⟩
        · exact absurd (hadv.rx field hin) h₃
        · obtain ⟨s, hs⟩ := Option.isSome_iff_exists.1 hstr
          have hdump : dumpAndHash hash (.string hc) (some s) = .ok (hash (.string hc) (some s)) := rfl
          dsimp only
          unfold hashMember
          rw [hs]
          dsimp only
          rw [hdump]
          cases hrx : st.rx with
          | none => exact ⟨_, rfl⟩
          | some j =>
            obtain ⟨r', rfl⟩ := hadv.isObject hobj j hrx
            exact ⟨_, rfl⟩
  obtain ⟨st', hst'⟩ := hstep
  refine ⟨st'.result, forget_object.2 ⟨st', ?_, rfl⟩⟩
  rw [get_set, get_set, if_neg hfield.1, if_neg hfield.2, set_of_get_eq_none hnew,
    forgetMembers_append, hst]
  change forgetMembers hash st [(field, .string hc)] = _
  have hstring : forget hash (.string hc) = .ok (.string hc) := rfl
  rw [forgetMembers, hstring, hst']
  rfl

/-! ### The object before and after -/

/-- The call is harmless: the field is an ordinary one, and what `forget` makes of `$forgotten` itself
does not matter. -/
structure CarefulForget (json : Json) (field : String) : Prop where
  ordinary : field ≠ "$forgettable" ∧ field ≠ "$forgotten"
  unnamed : objectGet (json.get? "$forgettable") "$forgotten" = none ∨
    (objectGet (json.get? "$forgotten") "$forgotten").isSome
  nested : NestedOk (json.get? "$forgotten") field

namespace PartForgotten

variable {m g r : List (String × Json)} {field salt hc : String} {part fp : Json}

theorem objectGet_rx (h : PartForgotten hash m g r field part fp salt hc) (x : String) :
    objectGet (get m "$forgotten") x = get r x := by
  have hr := h.getRx
  cases hm : get m "$forgotten" with
  | none =>
    rw [hm] at hr
    cases hr
    rfl
  | some j =>
    rw [hm] at hr
    cases hr
    rfl

theorem isTable (h : PartForgotten hash m g r field part fp salt hc) (hr : Keyed r) :
    IsTable (get m "$forgotten") := by
  intro j hj
  have hrx := h.getRx
  rw [hj] at hrx
  exact ⟨r, hrx, hr⟩

theorem keyed_rx (h : PartForgotten hash m g r field part fp salt hc)
    (hwf : (Json.object m).WellFormed) : Keyed r := by
  have hr := h.getRx
  cases hm : get m "$forgotten" with
  | none =>
    rw [hm] at hr
    cases hr
    exact keyed_nil
  | some j =>
    rw [hm] at hr
    obtain rfl : j = .object r := hr
    exact (wellFormed_get hwf.2 hm).1

/-- The outcome for a field that is forgotten by the call. -/
theorem outcome_field (h : PartForgotten hash m g r field part fp salt hc) (hr : Keyed r)
    (hf : field ≠ "$forgettable") :
    outcome hash (get m "$forgettable") (get m "$forgotten") field part (forget hash part) =
      .ok (.hashed hc) := by
  unfold outcome
  have hnone : ¬ (objectGet (get m "$forgotten") field).isSome := by
    rw [h.objectGet_rx, h.notYet]
    exact Bool.false_ne_true
  have hsf : ¬ (field = "$forgettable" ∨ isSame (get m "$forgettable") part = true) := by
    rw [h.getFg]
    exact not_or.2 ⟨hf, Bool.false_ne_true⟩
  have hsr : ¬ isSame (get m "$forgotten") part = true := by
    rw [(h.isTable hr).isSame]
    exact Bool.false_ne_true
  have hsalt : objectGet (get m "$forgettable") field = some (.string salt) := by
    rw [h.getFg]
    exact h.getSalt
  rw [if_neg hsf, if_neg hsr, if_neg hnone, h.forgotten, hsalt]
  dsimp only [stringValue?]
  rw [h.hashed]
  rfl

/-- `$forgotten` is an ordinary member that is not hashed. -/
theorem outcome_forgotten {fg rx : Option Json} {value : Json} {t : Except HashError Json}
    (hsf : isSame fg value = false) (hsr : isSame rx value = false)
    (hun : objectGet fg "$forgotten" = none ∨ (objectGet rx "$forgotten").isSome) :
    (∃ o, outcome hash fg rx "$forgotten" value t = .ok o ∧ o.hashed? = none) ↔
      (objectGet rx "$forgotten").isSome ∨ ∃ t', t = .ok t' := by
  unfold outcome
  rw [hsf, hsr, if_neg (by decide), if_neg Bool.false_ne_true]
  by_cases hin : (objectGet rx "$forgotten").isSome = true
  · rw [if_pos hin]
    exact iff_of_true ⟨_, rfl, rfl⟩ (Or.inl hin)
  · rw [if_neg hin, hun.resolve_right hin]
    cases t with
    | error e =>
      refine iff_of_false (fun ⟨_, h, _⟩ => (nomatch h)) ?_
      rintro (h | ⟨_, h⟩)
      · exact hin h
      · exact nomatch h
    | ok t => exact iff_of_true ⟨_, rfl, rfl⟩ (Or.inr ⟨t, rfl⟩)

theorem outcome_forgotten_hashed {fg rx : Option Json} {value : Json} {t : Except HashError Json}
    {o : MemberOutcome} (hsf : isSame fg value = false) (hsr : isSame rx value = false)
    (hun : objectGet fg "$forgotten" = none ∨ (objectGet rx "$forgotten").isSome)
    (ho : outcome hash fg rx "$forgotten" value t = .ok o) : o.hashed? = none := by
  unfold outcome at ho
  rw [hsf, hsr, if_neg (by decide), if_neg Bool.false_ne_true] at ho
  split_ifs at ho with hin
  · cases ho
    rfl
  · rw [hun.resolve_right hin] at ho
    cases t with
    | error e => exact nomatch ho
    | ok t =>
      cases ho
      rfl

/-- The value of `$forgotten`, if there is one, has been dealt with. -/
theorem forgotten_before {st : ForgetState} (h : PartForgotten hash m g r field part fp salt hc)
    (hr : Keyed r) (hc' : CarefulForget (.object m) field)
    (hres : LoopResult hash (get m "$forgettable") (get m "$forgotten")
      ⟨get m "$forgettable", get m "$forgotten", []⟩ m st) :
    objectGet st.rx "$forgotten" = get r "$forgotten" ∧
      ((get r "$forgotten").isSome ∨ ∃ t, forget hash (.object r) = .ok t) := by
  have hrx := h.objectGet_rx "$forgotten"
  have hr0 := h.getRx
  cases hm : get m "$forgotten" with
  | none =>
    rw [hm] at hr0
    cases hr0
    refine ⟨?_, Or.inr ⟨_, rfl⟩⟩
    rw [hres.rxNone _ hm]
    exact hrx
  | some j =>
    rw [hm] at hr0
    obtain rfl : j = .object r := hr0
    obtain ⟨o, ho⟩ := hres.ok _ _ hm
    have hsf : isSame (get m "$forgettable") (.object r) = false := by
      rw [h.getFg]
      rfl
    have hsr := (h.isTable hr).isSame (.object r)
    have hun : objectGet (get m "$forgettable") "$forgotten" = none ∨
        (objectGet (get m "$forgotten") "$forgotten").isSome := hc'.unnamed
    have hnone := outcome_forgotten_hashed hsf hsr hun ho
    refine ⟨?_, ?_⟩
    · rw [hres.rx _ _ o hm ho, hnone]
      exact hrx
    · rw [← hrx]
      exact (outcome_forgotten hsf hsr hun).1 ⟨o, ho, hnone⟩

/-- The outcome for a member after the call, next to the loop before the call. -/
theorem outcome_after {st : ForgetState} (h : PartForgotten hash m g r field part fp salt hc)
    (hr : Keyed r) (hc' : CarefulForget (.object m) field)
    (hres : LoopResult hash (get m "$forgettable") (get m "$forgotten")
      ⟨get m "$forgettable", get m "$forgotten", []⟩ m st) {k : String} {v : Json}
    (hk : get (afterForget m g r field hc) k = some v) :
    ∃ o, outcome hash (some (.object (del g field))) (some (.object (set r field (.string hc)))) k v
          (forget hash v) = .ok o ∧
      (k ≠ "$forgotten" → get st.ret k = o.kept?) ∧
      objectGet st.rx k = o.hashed?.or (get (set r field (.string hc)) k) := by
  obtain ⟨hf₁, hf₂⟩ := hc'.ordinary
  have hrx := h.objectGet_rx
  rw [get_afterForget] at hk
  split_ifs at hk with h₀ h₁ h₂
  · -- the new value of `$forgotten`
    cases hk
    subst h₁
    have hun : objectGet (some (.object (del g field))) "$forgotten" = none ∨
        (objectGet (some (.object (set r field (.string hc)))) "$forgotten").isSome := by
      have hun := hc'.unnamed
      change objectGet (get m "$forgettable") _ = none ∨ (objectGet (get m "$forgotten") _).isSome at hun
      rw [hrx, h.getFg] at hun
      change get (del g field) _ = none ∨ (get (set r field (.string hc)) _).isSome
      rw [get_del, get_set, if_neg hf₂, if_neg hf₂]
      exact hun
    obtain ⟨hst, hok⟩ := h.forgotten_before hr hc' hres
    have hsame : get (set r field (.string hc)) "$forgotten" = get r "$forgotten" := by
      rw [get_set, if_neg hf₂]
    have hnest : NestedOk (some (.object r)) field := by
      have hnest := hc'.nested
      unfold NestedOk at hnest ⊢
      change ∀ salt, objectGet (objectGet (get m "$forgotten") _) field = _ → (objectGet (objectGet (get m "$forgotten") _) field).isSome ∨ _ ∧ IsObject (objectGet (get m "$forgotten") _) at hnest
      rw [hrx, hrx] at hnest
      exact hnest
    have hok' : (objectGet (some (.object (set r field (.string hc)))) "$forgotten").isSome ∨
        ∃ t', forget hash (.object (set r field (.string hc))) = .ok t' := by
      rcases hok with hin | ⟨t, ht⟩
      · refine Or.inl ?_
        change (get (set r field (.string hc)) "$forgotten").isSome
        rw [hsame]
        exact hin
      · exact Or.inr (forget_set_string hc'.ordinary h.notYet hnest ht)
    obtain ⟨o, ho, hnone⟩ := (outcome_forgotten rfl rfl hun).2 hok'
    refine ⟨o, ho, fun hne => absurd rfl hne, ?_⟩
    rw [hst, hnone, hsame]
    rfl
  · -- `$forgettable`
    subst h₂
    have hm := h.getFg
    have ho : outcome hash (get m "$forgettable") (get m "$forgotten") "$forgettable" (.object g)
        (forget hash (.object g)) = .ok .skipped := if_pos (Or.inl rfl)
    refine ⟨.skipped, if_pos (Or.inl rfl), fun _ => hres.ret _ _ _ hm ho, ?_⟩
    rw [hres.rx _ _ _ hm ho, hrx, get_set, if_neg hf₁]
  · -- a member that stays as it is
    obtain ⟨o, ho⟩ := hres.ok k v hk
    refine ⟨o, ?_, fun _ => hres.ret k v o hk ho, ?_⟩
    · rw [← ho]
      refine outcome_congr ?_ ?_ ?_ ?_
      · rw [h.getFg]
        exact (get_del g field k).trans (if_neg h₀)
      · rw [hrx]
        exact (get_set r field k _).trans (if_neg h₀)
      · rw [h.getFg]
        rfl
      · exact ((h.isTable hr).isSame v).symm
    · rw [hres.rx k v o hk ho, hrx, get_set, if_neg h₀]

end PartForgotten

/-- Results with the same lookups are encoded alike. -/
theorem result_congr {st st' : ForgetState} (hk : Keyed st.ret) (hk' : Keyed st'.ret)
    (ht : IsTable st.rx) (ht' : IsTable st'.rx) (hs : st.rx.isSome) (hs' : st'.rx.isSome)
    (hret : ∀ x, x ≠ "$forgotten" → get st.ret x = get st'.ret x)
    (hrx : ∀ x, objectGet st.rx x = objectGet st'.rx x) :
    st.result.canonical = st'.result.canonical := by
  obtain ⟨j, hj⟩ := Option.isSome_iff_exists.1 hs
  obtain ⟨j', hj'⟩ := Option.isSome_iff_exists.1 hs'
  obtain ⟨r, rfl, hr⟩ := ht j hj
  obtain ⟨r', rfl, hr'⟩ := ht' j' hj'
  rw [hj, hj'] at hrx
  have hcan : canonical (.object r) = canonical (.object r') :=
    canonical_object_congr hr hr' fun k => congrArg (Option.map canonical) (hrx k)
  unfold ForgetState.result
  rw [hj, hj']
  refine canonical_object_congr (keyed_set hk _ _) (keyed_set hk' _ _) fun k => ?_
  rw [get_set, get_set]
  split_ifs with hx
  · exact congrArg some hcan
  · rw [hret k (Ne.symm hx)]

/-- **A call does not change what `forget` makes of the object.** -/
theorem contractPartForget_agree {json json' : Json} {field : String} (hwf : json.WellFormed)
    (hc' : CarefulForget json field) (hrun : contractPartForget hash json field = .ok json') {t : Json}
    (ht : forget hash json = .ok t) :
    ∃ t', forget hash json' = .ok t' ∧ t.canonical = t'.canonical := by
  obtain ⟨m, g, r, part, fp, salt, hc, rfl, h, rfl⟩ := contractPartForget_eq_ok hrun
  have hm : Keyed m := hwf.1
  have hr : Keyed r := h.keyed_rx hwf
  obtain ⟨hf₁, hf₂⟩ := hc'.ordinary
  obtain ⟨st, hst, rfl⟩ := forget_object.1 ht
  have hres := forgetMembers_spec hm (started_init (h.isTable hr)) hst
  have hafter := fun k v => h.outcome_after hr hc' hres (k := k) (v := v)
  have hkeyed := keyed_afterForget hm g r field hc
  have hinit : Started (some (.object (del g field))) (some (.object (set r field (.string hc))))
      ⟨some (.object (del g field)), some (.object (set r field (.string hc))), []⟩
      (afterForget m g r field hc) :=
    ⟨isTable_object (keyed_set hr _ _), keyed_nil, fun _ => rfl, fun _ => rfl, fun _ _ => rfl,
      fun _ _ => rfl, fun _ _ => rfl⟩
  have hfg' : get (afterForget m g r field hc) "$forgettable" = some (.object (del g field)) := by
    rw [get_afterForget, if_neg hf₁, if_neg (by decide), if_pos rfl]
  have hrx' : get (afterForget m g r field hc) "$forgotten" =
      some (.object (set r field (.string hc))) := by
    rw [get_afterForget, if_neg hf₂, if_pos rfl]
  obtain ⟨st', hst'⟩ := forgetMembers_ok hkeyed hinit fun k v hk =>
    (hafter k v hk).imp fun _ ho => ho.1
  have hres' := forgetMembers_spec hkeyed hinit hst'
  refine ⟨st'.result, forget_object.2 ⟨st', ?_, rfl⟩, ?_⟩
  · rw [hfg', hrx']
    exact hst'
  have hout := h.outcome_field hr hf₁
  have hgone : get (afterForget m g r field hc) field = none := by
    rw [get_afterForget, if_pos rfl]
  have hfield : objectGet st.rx field = some (.string hc) := hres.rx field part _ h.getPart hout
  have hfield' : objectGet st'.rx field = some (.string hc) := by
    rw [hres'.rxNone field hgone]
    exact (get_set r field field _).trans (if_pos rfl)
  have hnone : ∀ x, field ≠ x → get (afterForget m g r field hc) x = none → get m x = none := by
    intro x hx hx'
    rw [get_afterForget, if_neg hx] at hx'
    split_ifs at hx'
    exact hx'
  have hsome : ∀ {o : Option Json} {v : Json}, objectGet o field = some v → o.isSome := by
    intro o v ho
    cases o with
    | none => cases ho
    | some j => rfl
  refine result_congr hres.keyed hres'.keyed hres.table hres'.table (hsome hfield) (hsome hfield')
    (fun x hx => ?_) (fun x => ?_)
  · cases hx' : get (afterForget m g r field hc) x with
    | some v =>
      obtain ⟨o, ho, hkept, -⟩ := hafter x v hx'
      rw [hkept hx, hres'.ret x v o hx' ho]
    | none =>
      rw [hres'.retNone x hx']
      by_cases hfx : field = x
      · subst hfx
        exact hres.ret field part _ h.getPart hout
      · exact hres.retNone x (hnone x hfx hx')
  · cases hx' : get (afterForget m g r field hc) x with
    | some v =>
      obtain ⟨o, ho, -, hrx⟩ := hafter x v hx'
      rw [hrx, hres'.rx x v o hx' ho]
      rfl
    | none =>
      by_cases hfx : field = x
      · subst hfx
        rw [hfield, hfield']
      · rw [hres'.rxNone x hx', hres.rxNone x (hnone x hfx hx'), h.objectGet_rx]
        exact ((get_set r field x _).trans (if_neg hfx)).symm

/-! ## A part of a larger value -/

/-- Two containers of which `forget` makes the same. -/
structure Agree (hash : Json → Option String → String) (v v' : Json) : Prop where
  left : v.isConstant = false
  right : v'.isConstant = false
  same : ∀ t, forget hash v = .ok t → ∃ t', forget hash v' = .ok t' ∧ t.canonical = t'.canonical

theorem canonicalMembers_set (m : List (String × Json)) (k : String) (v : Json) :
    canonicalMembers (set m k v) = set (canonicalMembers m) k v.canonical := by
  induction m with
  | nil => rfl
  | cons e m ih =>
    obtain ⟨k', j⟩ := e
    unfold Assoc.set
    rw [canonicalMembers]
    dsimp only
    split_ifs
    · rfl
    · rw [canonicalMembers, ih]

theorem canonicalMembers_del (m : List (String × Json)) (k : String) :
    canonicalMembers (del m k) = del (canonicalMembers m) k := by
  rw [canonicalMembers_eq, canonicalMembers_eq, del, del, List.filter_map]
  rfl

theorem isSame_of_not_constant {v : Json} (h : v.isConstant = false) (o : Option Json) :
    isSame o v = false := by
  cases o with
  | none => rfl
  | some j => cases v <;> cases j <;> first | rfl | exact nomatch h

/-- States that differ in the order of members below. -/
structure StateAgree (st st' : ForgetState) : Prop where
  fg : st.fg = st'.fg
  rx : st.rx = st'.rx
  ret : canonicalMembers st.ret = canonicalMembers st'.ret

theorem StateAgree.refl (st : ForgetState) : StateAgree st st := ⟨rfl, rfl, rfl⟩

/-- The step for two values of which `forget` makes the same. -/
theorem StateAgree.step {st st' st₁ : ForgetState} (hst : StateAgree st st') {key : String}
    {v v' : Json} (hv : ∀ o, isSame o v = isSame o v')
    (ht : ∀ t, forget hash v = .ok t → ∃ t', forget hash v' = .ok t' ∧ t.canonical = t'.canonical)
    (h : forgetMember hash st key v (forget hash v) = .ok st₁) :
    ∃ st₁', forgetMember hash st' key v' (forget hash v') = .ok st₁' ∧ StateAgree st₁ st₁' := by
  obtain ⟨fg, rx, ret⟩ := st
  obtain ⟨fg', rx', ret'⟩ := st'
  obtain ⟨hfg, hrx, hret⟩ := hst
  dsimp only at hfg hrx hret
  subst hfg
  subst hrx
  unfold forgetMember at h ⊢
  rw [← hv, ← hv]
  dsimp only at h ⊢
  split_ifs at h ⊢
  · cases h
    exact ⟨_, rfl, rfl, rfl, hret⟩
  · cases h
    exact ⟨_, rfl, rfl, rfl, hret⟩
  · cases h
    refine ⟨_, rfl, rfl, rfl, ?_⟩
    rw [canonicalMembers_del, canonicalMembers_del, hret]
  · cases hft : forget hash v with
    | error e =>
      rw [hft] at h
      exact nomatch h
    | ok t =>
      obtain ⟨t', ht', hcan⟩ := ht t hft
      rw [hft] at h
      rw [ht']
      dsimp only at h ⊢
      cases hsalt : objectGet fg key with
      | none =>
        rw [hsalt] at h
        cases h
        refine ⟨_, rfl, rfl, rfl, ?_⟩
        rw [canonicalMembers_set, canonicalMembers_set, hret, hcan]
      | some salt =>
        rw [hsalt] at h
        dsimp only at h ⊢
        unfold hashMember at h ⊢
        cases hs : salt.stringValue? with
        | none =>
          rw [hs] at h
          exact nomatch h
        | some s =>
          rw [hs] at h
          dsimp only at h ⊢
          rw [← dumpAndHash_congr hash hcan]
          cases hd : dumpAndHash hash t (some s) with
          | error e =>
            rw [hd] at h
            exact nomatch h
          | ok hc =>
            rw [hd] at h
            dsimp only at h ⊢
            cases hset : (rx.getD (.object [])).set? key (.string hc) with
            | none =>
              rw [hset] at h
              exact nomatch h
            | some rx₁ =>
              rw [hset] at h
              cases h
              exact ⟨_, rfl, rfl, rfl, hret⟩

/-- The loop over members of which one has been replaced. -/
theorem StateAgree.members {k : String} {v v' : Json} (hv : Agree hash v v') :
    ∀ {m : List (String × Json)} {st st' st₁ : ForgetState}, get m k = some v → StateAgree st st' →
      forgetMembers hash st m = .ok st₁ →
        ∃ st₁', forgetMembers hash st' (set m k v') = .ok st₁' ∧ StateAgree st₁ st₁' := by
  have hrest : ∀ {m : List (String × Json)} {st st' st₁ : ForgetState}, StateAgree st st' →
      forgetMembers hash st m = .ok st₁ →
        ∃ st₁', forgetMembers hash st' m = .ok st₁' ∧ StateAgree st₁ st₁' := by
    intro m
    induction m with
    | nil =>
      intro st st' st₁ hst h
      cases h
      exact ⟨st', rfl, hst⟩
    | cons e m ih =>
      intro st st' st₁ hst h
      obtain ⟨key, value⟩ := e
      rw [forgetMembers] at h ⊢
      cases hs : forgetMember hash st key value (forget hash value) with
      | error e =>
        rw [hs] at h
        cases h
      | ok st₂ =>
        rw [hs] at h
        obtain ⟨st₂', hs', hst'⟩ := hst.step (fun _ => rfl) (fun t ht => ⟨t, ht, rfl⟩) hs
        rw [hs']
        exact ih hst' h
  intro m
  induction m with
  | nil =>
    intro st st' st₁ hk
    cases hk
  | cons e m ih =>
    intro st st' st₁ hk hst h
    obtain ⟨key, value⟩ := e
    rw [get_cons] at hk
    unfold Assoc.set
    rw [forgetMembers] at h
    cases hs : forgetMember hash st key value (forget hash value) with
    | error e =>
      rw [hs] at h
      cases h
    | ok st₂ =>
      rw [hs] at h
      split_ifs at hk ⊢ with hx
      · cases hk
        subst hx
        have hsame : ∀ o, isSame o v = isSame o v' := fun o =>
          (isSame_of_not_constant hv.left o).trans (isSame_of_not_constant hv.right o).symm
        obtain ⟨st₂', hs', hst'⟩ := hst.step hsame hv.same hs
        rw [forgetMembers, hs']
        exact hrest hst' h
      · obtain ⟨st₂', hs', hst'⟩ := hst.step (fun _ => rfl) (fun t ht => ⟨t, ht, rfl⟩) hs
        rw [forgetMembers, hs']
        exact ih hk hst' h

theorem StateAgree.result {st st' : ForgetState} (h : StateAgree st st') :
    st.result.canonical = st'.result.canonical := by
  unfold ForgetState.result
  rw [← h.rx]
  unfold canonical
  cases st.rx with
  | none =>
    dsimp only
    rw [h.ret]
  | some rx =>
    dsimp only
    rw [canonicalMembers_set, canonicalMembers_set, h.ret]

/-- A member of an object. -/
theorem Agree.member {m : List (String × Json)} {k : String} {v v' : Json} (hv : Agree hash v v')
    (hk : get m k = some v) (hne : k ≠ "$forgettable" ∧ k ≠ "$forgotten") :
    Agree hash (.object m) (.object (set m k v')) := by
  refine ⟨rfl, rfl, fun t ht => ?_⟩
  obtain ⟨st, hst, rfl⟩ := forget_object.1 ht
  obtain ⟨st', hst', hag⟩ := StateAgree.members hv hk (.refl _) hst
  refine ⟨st'.result, forget_object.2 ⟨st', ?_, rfl⟩, hag.result⟩
  rw [get_set, get_set, if_neg hne.1, if_neg hne.2]
  exact hst'

/-- An element of an array. -/
theorem Agree.element {l : List Json} {i : ℕ} {v v' : Json} (hv : Agree hash v v')
    (hi : l[i]? = some v) : Agree hash (.array l) (.array (l.set i v')) := by
  have hloop : ∀ {l : List Json} {i : ℕ} {ts : List Json}, l[i]? = some v →
      forgetElements hash l = .ok ts →
        ∃ ts', forgetElements hash (l.set i v') = .ok ts' ∧
          canonicalElements ts = canonicalElements ts' := by
    intro l
    induction l with
    | nil => exact fun h => nomatch h
    | cons j l ih =>
      intro i ts hi h
      rw [forgetElements] at h
      cases hj : forget hash j with
      | error e =>
        rw [hj] at h
        exact nomatch h
      | ok t =>
      cases hl : forgetElements hash l with
      | error e =>
        rw [hj, hl] at h
        exact nomatch h
      | ok ts₁ =>
        rw [hj, hl] at h
        cases h
        cases i with
        | zero =>
          cases hi
          obtain ⟨t', ht', hcan⟩ := hv.same t hj
          refine ⟨t' :: ts₁, ?_, ?_⟩
          · rw [List.set_cons_zero, forgetElements, ht', hl]
            rfl
          · rw [canonicalElements, canonicalElements, hcan]
        | succ i =>
          obtain ⟨ts', hts', hcan⟩ := ih hi hl
          refine ⟨t :: ts', ?_, ?_⟩
          · rw [List.set_cons_succ, forgetElements, hj, hts']
            rfl
          · rw [canonicalElements, canonicalElements, hcan]
  refine ⟨rfl, rfl, fun t ht => ?_⟩
  rw [forget] at ht
  cases hl : forgetElements hash l with
  | error e =>
    rw [hl] at ht
    exact nomatch ht
  | ok ts =>
    rw [hl] at ht
    cases ht
    obtain ⟨ts', hts', hcan⟩ := hloop hi hl
    refine ⟨.array ts', ?_, ?_⟩
    · rw [forget, hts']
      rfl
    · unfold canonical
      rw [hcan]

/-! ## Runs -/

/-- The call is harmless, and the path to its object does not lead through `$forgettable` or
`$forgotten`. -/
def CarefulAt (field : String) : List PathStep → Json → Prop
  | [], json => CarefulForget json field
  | .member k :: path, .object m =>
    (k ≠ "$forgettable" ∧ k ≠ "$forgotten") ∧ ∀ v, get m k = some v → CarefulAt field path v
  | .element i :: path, .array l => ∀ v, l[i]? = some v → CarefulAt field path v
  | _, _ => True

/-- All calls of a run are harmless. -/
def CarefulCalls (hash : Json → Option String → String) : List ForgetCall → Json → Prop
  | [], _ => True
  | c :: calls, json =>
    CarefulAt c.field c.path json ∧
      ∀ json', modifyAt (contractPartForget hash · c.field) c.path json = .ok json' →
        CarefulCalls hash calls json'

theorem wellFormed_contractPartForget {json json' : Json} {field : String} (hwf : json.WellFormed)
    (h : contractPartForget hash json field = .ok json') : json'.WellFormed := by
  obtain ⟨m, g, r, part, fp, salt, hc, rfl, hp, rfl⟩ := contractPartForget_eq_ok h
  have hg : (Json.object g).WellFormed := wellFormed_get hwf.2 hp.getFg
  have hr : (Json.object r).WellFormed := by
    have hr0 := hp.getRx
    cases hm : get m "$forgotten" with
    | none =>
      rw [hm] at hr0
      cases hr0
      exact ⟨keyed_nil, trivial⟩
    | some j =>
      rw [hm] at hr0
      obtain rfl : j = .object r := hr0
      exact wellFormed_get hwf.2 hm
  have hg' : (Json.object (del g field)).WellFormed := ⟨keyed_del hg.1 _, wellFormed_del hg.2 _⟩
  have hr' : (Json.object (set r field (.string hc))).WellFormed :=
    ⟨keyed_set hr.1 _ _, wellFormed_set hr.2 _ trivial⟩
  exact ⟨keyed_afterForget hwf.1 g r field hc,
    wellFormed_del (wellFormed_set (wellFormed_set hwf.2 _ hg') _ hr') _⟩

/-- The step: a harmless call of a part of a value. -/
theorem modifyAt_agree {field : String} : ∀ {path : List PathStep} {json json' : Json},
    json.WellFormed → CarefulAt field path json →
      modifyAt (contractPartForget hash · field) path json = .ok json' →
        json'.WellFormed ∧ Agree hash json json'
  | [], json, json', hwf, hc, h => by
    rw [modifyAt] at h
    refine ⟨wellFormed_contractPartForget hwf h, ?_, ?_, fun t => contractPartForget_agree hwf hc h⟩
    · obtain ⟨m, g, r, part, fp, salt, hc', rfl, -, rfl⟩ := contractPartForget_eq_ok h
      rfl
    · obtain ⟨m, g, r, part, fp, salt, hc', rfl, -, rfl⟩ := contractPartForget_eq_ok h
      rfl
  | .member k :: path, json, json', hwf, hc, h => by
    cases json with
    | object m =>
      rw [modifyAt] at h
      cases hk : get m k with
      | none =>
        rw [hk] at h
        exact nomatch h
      | some v =>
        rw [hk] at h
        dsimp only at h
        cases hv : modifyAt (contractPartForget hash · field) path v with
        | error e =>
          rw [hv] at h
          exact nomatch h
        | ok v' =>
          rw [hv] at h
          cases h
          obtain ⟨hwf', hag⟩ := modifyAt_agree (wellFormed_get hwf.2 hk) (hc.2 v hk) hv
          exact ⟨⟨keyed_set hwf.1 _ _, wellFormed_set hwf.2 _ hwf'⟩, hag.member hk hc.1⟩
    | _ => exact nomatch h
  | .element i :: path, json, json', hwf, hc, h => by
    cases json with
    | array l =>
      rw [modifyAt] at h
      cases hi : l[i]? with
      | none =>
        rw [hi] at h
        exact nomatch h
      | some v =>
        rw [hi] at h
        dsimp only at h
        cases hv : modifyAt (contractPartForget hash · field) path v with
        | error e =>
          rw [hv] at h
          exact nomatch h
        | ok v' =>
          rw [hv] at h
          cases h
          have hl := wellFormedElements_iff.1 hwf
          obtain ⟨hwf', hag⟩ := modifyAt_agree (hl v (List.mem_of_getElem? hi)) (hc v hi) hv
          refine ⟨wellFormedElements_iff.2 fun j hj => ?_, hag.element hi⟩
          rcases List.mem_or_eq_of_mem_set hj with hj | rfl
          · exact hl j hj
          · exact hwf'
    | _ => exact nomatch h

/-- **Forgetting preserves the hash**: after harmless calls that succeed the contract has the hash it
had before. -/
theorem contractHash_forgetAll {calls : List ForgetCall} {json json' : Json} {h : String}
    (hwf : json.WellFormed) (hc : CarefulCalls hash calls json)
    (hrun : forgetAll hash calls json = .ok json') (hh : contractHash hash json = .ok h) :
    contractHash hash json' = .ok h := by
  induction calls generalizing json with
  | nil =>
    cases hrun
    exact hh
  | cons c calls ih =>
    rw [forgetAll] at hrun
    cases hs : modifyAt (contractPartForget hash · c.field) c.path json with
    | error e =>
      rw [hs] at hrun
      exact nomatch hrun
    | ok json₁ =>
      rw [hs] at hrun
      obtain ⟨hwf₁, hag⟩ := modifyAt_agree hwf hc.1 hs
      refine ih hwf₁ (hc.2 json₁ hs) hrun ?_
      unfold contractHash at hh ⊢
      cases ht : forget hash json with
      | error e =>
        rw [ht] at hh
        exact nomatch hh
      | ok t =>
        obtain ⟨t', ht', hcan⟩ := hag.same t ht
        rw [ht] at hh
        rw [ht', ← hh]
        exact (dumpAndHash_congr hash hcan none).symm

end Loop

/-! ## Two contracts -/

/-- A hash that tells how many members an object has. -/
def countingHash (json : Json) (_ : Option String) : String :=
  match json with
  | .object [] => "none"
  | .object [(_, .object [_])] => "one"
  | _ => "more"

/-- A product with a forgettable member, which is forgettable itself. -/
def nestedContract : Json :=
  .object [("product", .object [("price", .integer 1), ("$forgettable", .object [("price", .string "s")])]),
    ("$forgettable", .object [("product", .string "t")])]

/-- The member is forgotten first, the product then. -/
def forgetBoth : List ForgetCall := [⟨[.member "product"], "price"⟩, ⟨[], "product"⟩]

theorem carefulCalls_forgetBoth : CarefulCalls countingHash forgetBoth nestedContract := by
  refine ⟨⟨by decide, fun v hv => ?_⟩, fun json' h => ?_⟩
  · cases hv
    exact ⟨by decide, Or.inl rfl, fun _ h => nomatch h⟩
  · cases h
    exact ⟨⟨by decide, Or.inl rfl, fun _ h => nomatch h⟩, fun _ _ => trivial⟩

theorem wellFormed_nestedContract : nestedContract.WellFormed :=
  ⟨by unfold Keyed; decide, ⟨⟨by unfold Keyed; decide, trivial, ⟨by unfold Keyed; decide, trivial, trivial⟩, trivial⟩,
    ⟨by unfold Keyed; decide, trivial, trivial⟩, trivial⟩⟩

theorem contractHash_forgetAll_forgetBoth :
    ∃ json', forgetAll countingHash forgetBoth nestedContract = .ok json' ∧
      contractHash countingHash json' = .ok "one" :=
  ⟨_, rfl, contractHash_forgetAll wellFormed_nestedContract carefulCalls_forgetBoth rfl rfl⟩

/-- A contract in which `$forgotten` is to be forgettable. -/
def selfNaming : Json :=
  .object [("a", .integer 1), ("$forgettable", .object [("a", .bool true), ("$forgotten", .bool true)])]

/-- A seeded contract whose hash is another one after a member has been forgotten. -/
theorem not_contractHash_forgetAll :
    ¬ ∀ (hash : Json → Option String → String) (salt : ℕ → String) (spec before json json' : Json)
      (n : ℕ) (calls : List ForgetCall) (h : String),
      contractSeedForgettable salt 0 before spec = .ok (json, n) → json.WellFormed →
      forgetAll hash calls json = .ok json' → contractHash hash json = .ok h →
        contractHash hash json' = .ok h := by
  intro hall
  have h := hall countingHash (fun n => toString n) selfNaming selfNaming _ _ 2 [⟨[], "a"⟩] "one" rfl
    ⟨by unfold Keyed; decide, trivial, ⟨by unfold Keyed; decide, trivial, trivial, trivial⟩, trivial⟩
    rfl rfl
  exact absurd h (by decide)

end TalerExchange
