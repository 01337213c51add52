import TalerExchange.Json.Forget

/-!
# Failed calls to forget a member

What `TALER_JSON_contract_part_forget` leaves behind when it fails.

* `scrubbed`: a value after `forget` has read it, which takes the salts out of `$forgettable`;
* `partForget`: the object after the call, whether it succeeds or not;
* **`contractPartForget_eq_ok_iff`**: it refines the model of the calls that succeed;
* `LosesSalt`, `scrubbed_eq_self`: when `forget` takes a salt;
* **`partForget_atomic_iff`**: when the object is unchanged by a failed call.
-/

namespace TalerExchange

open Assoc Json

/-! ## The code -/

section Code

variable (hash : Json → Option String → String)

/-- The loop of `forget` calls itself for the member. -/
def isVisited (st : ForgetState) (key : String) (value : Json) : Bool :=
  ¬ (key = "$forgettable" ∨ isSame st.fg value) ∧ ¬ isSame st.rx value ∧
    ¬ (objectGet st.rx key).isSome

/-- The member has a salt that is scrubbed; `t` is its value without its forgettable parts. -/
def takesSalt (st : ForgetState) (key : String) (value : Json) (t : Except HashError Json) : Bool :=
  isVisited st key value &&
    match t, (objectGet st.fg key).bind stringValue? with
    | .ok t, some salt => (dumpAndHash hash t (some salt)).isOk
    | _, _ => false

/-- `$forgettable` after a member. -/
def scrubSalt (st : ForgetState) (key : String) (value : Json) (t : Except HashError Json) :
    Option Json :=
  if takesSalt hash st key value t then st.fg.bind (·.del? key) else st.fg

/-- A member that may have a new value. -/
def setIfSome (m : List (String × Json)) (key : String) : Option Json → List (String × Json)
  | none => m
  | some value => set m key value

mutual

/-- The argument of `forget` after the call. -/
def scrubbed : Json → Json
  | .array l => .array (scrubbedElements l)
  | .object m =>
    let r := scrubbedMembers ⟨get m "$forgettable", get m "$forgotten", []⟩ m
    .object (setIfSome r.1 "$forgettable" r.2)
  | j => j

/-- The elements after the loop over an array. -/
def scrubbedElements : List Json → List Json
  | [] => []
  | j :: l =>
    match forget hash j with
    | .error _ => scrubbed j :: l
    | .ok _ => scrubbed j :: scrubbedElements l

/-- The members after the loop over an object, and the value of `$forgettable`. -/
def scrubbedMembers (st : ForgetState) :
    List (String × Json) → List (String × Json) × Option Json
  | [] => ([], st.fg)
  | (key, value) :: m =>
    let value' := if isVisited st key value then scrubbed value else value
    match forgetMember hash st key value (forget hash value) with
    | .error _ => ((key, value') :: m, scrubSalt hash st key value (forget hash value))
    | .ok st =>
      let r := scrubbedMembers st m
      ((key, value') :: r.1, r.2)

end

/-- `TALER_JSON_contract_part_forget`: the object after the call, and what is returned. -/
def partForget (json : Json) (field : String) : Json × Except HashError Unit :=
  match json with
  | .object members =>
    match get members field with
    | none => (.object members, .error .sysErr)
    | some part =>
      match get members "$forgettable" with
      | none => (.object members, .error .sysErr)
      | some fg =>
        let rx := (get members "$forgotten").getD (.object [])
        let members := set members "$forgotten" rx
        match rx.get? field with
        | some _ =>
          match part with
          | .null => (.object members, .error .no)
          | _ => (.object members, .error .sysErr)
        | none =>
          match (fg.get? field).bind stringValue? with
          | none => (.object members, .error .sysErr)
          | some salt =>
            let members := set members field (scrubbed hash part)
            match forget hash part with
            | .error e => (.object members, .error e)
            | .ok fp =>
              match dumpAndHash hash fp (some salt) with
              | .error _ => (.object members, .error .sysErr)
              | .ok hc =>
                -- The part may be the value of `$forgettable` or `$forgotten`.
                match (get members "$forgettable").bind (·.del? field) with
                | none => (.object members, .error .sysErr)
                | some fg =>
                  let members := set members "$forgettable" fg
                  match (get members "$forgotten").bind (·.set? field (.string hc)) with
                  | none => (.object members, .error .sysErr)
                  | some rx => (.object (del (set members "$forgotten" rx) field), .ok ())
  | _ => (json, .error .sysErr)

end Code

section Scrub

variable {hash : Json → Option String → String}

/-! ## Salts that are taken -/

mutual

/-- `forget` takes a salt from an object in the value. -/
def LosesSalt (hash : Json → Option String → String) : Json → Prop
  | .array l => LosesSaltElements hash l
  | .object m => LosesSaltMembers hash ⟨get m "$forgettable", get m "$forgotten", []⟩ m
  | _ => False

def LosesSaltElements (hash : Json → Option String → String) : List Json → Prop
  | [] => False
  | j :: l => LosesSalt hash j ∨ ((forget hash j).isOk ∧ LosesSaltElements hash l)

def LosesSaltMembers (hash : Json → Option String → String) (st : ForgetState) :
    List (String × Json) → Prop
  | [] => False
  | (key, value) :: m =>
    (isVisited st key value ∧ LosesSalt hash value) ∨
      takesSalt hash st key value (forget hash value) ∨
      ∃ st', forgetMember hash st key value (forget hash value) = .ok st' ∧
        LosesSaltMembers hash st' m

end

/-- What the loop does to `$forgettable`. -/
theorem fg_forgetMember {st st' : ForgetState} {key : String} {value : Json}
    {t : Except HashError Json} (h : forgetMember hash st key value t = .ok st') :
    st'.fg = scrubSalt hash st key value t := by
  unfold scrubSalt takesSalt isVisited
  unfold forgetMember at h
  split_ifs at h with hfg hrx hkey
  · cases h
    simp [hfg]
  · cases h
    simp [hrx]
  · cases h
    simp [hkey]
  · cases t with
    | error e => exact nomatch h
    | ok t =>
      dsimp only at h
      cases hs : objectGet st.fg key with
      | none =>
        rw [hs] at h
        cases h
        simp
      | some salt =>
        rw [hs] at h
        dsimp only at h
        unfold hashMember at h
        rw [Option.bind_some]
        cases hstr : salt.stringValue? with
        | none =>
          rw [hstr] at h
          exact nomatch h
        | some s =>
          rw [hstr] at h
          dsimp only at h
          cases hd : dumpAndHash hash t (some s) with
          | error e =>
            rw [hd] at h
            exact nomatch h
          | ok hc =>
            rw [hd] at h
            dsimp only at h
            cases hset : (st.rx.getD (.object [])).set? key (.string hc) with
            | none =>
              rw [hset] at h
              exact nomatch h
            | some rx =>
              rw [hset] at h
              cases h
              simp [hfg, hrx, hkey, hd, Except.isOk, Except.toBool]

theorem takesSalt_get {st : ForgetState} {key : String} {value : Json} {t : Except HashError Json}
    (h : takesSalt hash st key value t = true) : ∃ salt, objectGet st.fg key = some salt := by
  unfold takesSalt at h
  cases hs : objectGet st.fg key with
  | some salt => exact ⟨salt, rfl⟩
  | none =>
    rw [hs] at h
    cases t <;> simp at h

/-- A salt that was taken is missed. -/
theorem scrubSalt_eq_self {st : ForgetState} {key : String} {value : Json}
    {t : Except HashError Json} :
    scrubSalt hash st key value t = st.fg ↔ takesSalt hash st key value t = false := by
  unfold scrubSalt
  cases h : takesSalt hash st key value t with
  | false => simp
  | true =>
    obtain ⟨salt, hsalt⟩ := takesSalt_get h
    refine iff_of_false (fun heq => ?_) (by decide)
    rw [if_pos rfl] at heq
    have hget := objectGet_del st.fg key key
    rw [heq, hsalt, if_pos rfl] at hget
    exact nomatch hget

/-- Salts are only taken away. -/
theorem objectGet_scrubSalt {st : ForgetState} {key : String} {value : Json}
    {t : Except HashError Json} {k : String} {s : Json}
    (h : objectGet (scrubSalt hash st key value t) k = some s) : objectGet st.fg k = some s := by
  unfold scrubSalt at h
  split_ifs at h
  · rw [objectGet_del] at h
    split_ifs at h
    exact h
  · exact h

theorem isSome_scrubSalt (st : ForgetState) (key : String) (value : Json)
    (t : Except HashError Json) : (scrubSalt hash st key value t).isSome = st.fg.isSome := by
  unfold scrubSalt
  split_ifs with h
  · obtain ⟨salt, hsalt⟩ := takesSalt_get h
    cases hfg : st.fg with
    | none => rfl
    | some fg =>
      rw [hfg] at hsalt
      cases fg with
      | object g => rfl
      | _ => exact nomatch hsalt
  · rfl

theorem objectGet_scrubbedMembers {m : List (String × Json)} {st : ForgetState} {k : String}
    {s : Json} (h : objectGet (scrubbedMembers hash st m).2 k = some s) :
    objectGet st.fg k = some s := by
  induction m generalizing st with
  | nil => exact h
  | cons e m ih =>
    obtain ⟨key, value⟩ := e
    unfold scrubbedMembers at h
    cases hm : forgetMember hash st key value (forget hash value) with
    | error e =>
      rw [hm] at h
      exact objectGet_scrubSalt h
    | ok st' =>
      rw [hm] at h
      have hfg := ih h
      rw [fg_forgetMember hm] at hfg
      exact objectGet_scrubSalt hfg

theorem isSome_scrubbedMembers (m : List (String × Json)) (st : ForgetState) :
    (scrubbedMembers hash st m).2.isSome = st.fg.isSome := by
  induction m generalizing st with
  | nil => rfl
  | cons e m ih =>
    obtain ⟨key, value⟩ := e
    unfold scrubbedMembers
    cases hm : forgetMember hash st key value (forget hash value) with
    | error e => exact isSome_scrubSalt st key value _
    | ok st' =>
      change (scrubbedMembers hash st' m).2.isSome = _
      rw [ih, fg_forgetMember hm, isSome_scrubSalt]

/-- The loop does not enter `$forgettable`. -/
theorem get_scrubbedMembers (m : List (String × Json)) (st : ForgetState) :
    get (scrubbedMembers hash st m).1 "$forgettable" = get m "$forgettable" := by
  induction m generalizing st with
  | nil => rfl
  | cons e m ih =>
    obtain ⟨key, value⟩ := e
    have hvalue : key = "$forgettable" →
        (if isVisited st key value then scrubbed hash value else value) = value := by
      rintro rfl
      rw [if_neg (by simp [isVisited])]
    unfold scrubbedMembers
    cases forgetMember hash st key value (forget hash value) with
    | error e =>
      change get ((key, _) :: m) "$forgettable" = _
      rw [get_cons, get_cons]
      by_cases hk : key = "$forgettable"
      · rw [hvalue hk]
      · rw [if_neg hk, if_neg hk]
    | ok st' =>
      change get ((key, _) :: (scrubbedMembers hash st' m).1) "$forgettable" = _
      rw [get_cons, get_cons, ih]
      by_cases hk : key = "$forgettable"
      · rw [hvalue hk]
      · rw [if_neg hk, if_neg hk]

/-- The object as it was, by the members and `$forgettable`. -/
theorem setIfSome_scrubbedMembers (m : List (String × Json))
    {r : List (String × Json) × Option Json}
    (hr : scrubbedMembers hash ⟨get m "$forgettable", get m "$forgotten", []⟩ m = r) :
    setIfSome r.1 "$forgettable" r.2 = m ↔ r = (m, get m "$forgettable") := by
  have hget : get r.1 "$forgettable" = get m "$forgettable" := by
    rw [← hr, get_scrubbedMembers]
  have hsome : r.2.isSome = (get m "$forgettable").isSome := by
    rw [← hr, isSome_scrubbedMembers]
  clear hr
  obtain ⟨m', fg⟩ := r
  dsimp only at hget hsome ⊢
  rw [Prod.mk.injEq]
  unfold setIfSome
  cases fg with
  | none =>
    have hnone : get m "$forgettable" = none := Option.isNone_iff_eq_none.1 (by
      rw [← Option.not_isSome, ← hsome]
      rfl)
    rw [hnone]
    exact (and_iff_left rfl).symm
  | some fg =>
    dsimp only
    constructor
    · intro h
      have hfg : get m "$forgettable" = some fg := by
        rw [← h, get_set, if_pos rfl]
      rw [set_of_get (hget.trans hfg)] at h
      exact ⟨h, hfg.symm⟩
    · rintro ⟨rfl, hfg⟩
      exact set_of_get hfg.symm

mutual

/-- **A value is changed by `forget`** when a salt is taken from it. -/
theorem scrubbed_eq_self : (j : Json) → (scrubbed hash j = j ↔ ¬ LosesSalt hash j)
  | .array l => by
    unfold scrubbed LosesSalt
    rw [Json.array.injEq]
    exact scrubbedElements_eq_self l
  | .object m => by
    unfold scrubbed LosesSalt
    dsimp only
    rw [Json.object.injEq, setIfSome_scrubbedMembers m rfl]
    exact scrubbedMembers_eq_self m _
  | .null => iff_of_true rfl id
  | .bool _ => iff_of_true rfl id
  | .integer _ => iff_of_true rfl id
  | .real => iff_of_true rfl id
  | .string _ => iff_of_true rfl id

theorem scrubbedElements_eq_self :
    (l : List Json) → (scrubbedElements hash l = l ↔ ¬ LosesSaltElements hash l)
  | [] => iff_of_true rfl id
  | j :: l => by
    have hj := scrubbed_eq_self j
    have hl := scrubbedElements_eq_self l
    unfold scrubbedElements LosesSaltElements
    cases forget hash j with
    | error e =>
      dsimp only
      rw [List.cons.injEq, and_iff_left rfl, hj]
      simp [Except.isOk, Except.toBool]
    | ok t =>
      dsimp only
      rw [List.cons.injEq, hj, hl, not_or]
      simp [Except.isOk, Except.toBool]

theorem scrubbedMembers_eq_self : (m : List (String × Json)) → (st : ForgetState) →
    (scrubbedMembers hash st m = (m, st.fg) ↔ ¬ LosesSaltMembers hash st m)
  | [], _ => iff_of_true rfl id
  | (key, value) :: m, st => by
    have hj := scrubbed_eq_self value
    have hvalue : (if isVisited st key value then scrubbed hash value else value) = value ↔
        ¬ (isVisited st key value = true ∧ LosesSalt hash value) := by
      split_ifs with h
      · rw [hj, not_and]
        exact ⟨fun hn _ => hn, fun hn => hn h⟩
      · exact iff_of_true rfl fun hand => h hand.1
    unfold scrubbedMembers LosesSaltMembers
    cases hm : forgetMember hash st key value (forget hash value) with
    | error e =>
      dsimp only
      rw [Prod.mk.injEq, List.cons.injEq, Prod.mk.injEq, and_iff_right rfl, and_iff_left rfl,
        hvalue, scrubSalt_eq_self, not_or, not_or]
      simp
    | ok st' =>
      have hfg := fg_forgetMember hm
      have hrest := scrubbedMembers_eq_self m st'
      dsimp only
      rw [Prod.mk.injEq, List.cons.injEq, Prod.mk.injEq, and_iff_right rfl, hvalue, not_or, not_or,
        and_assoc]
      refine and_congr_right fun _ => ?_
      cases htake : takesSalt hash st key value (forget hash value) with
      | false =>
        rw [scrubSalt_eq_self.2 htake] at hfg
        rw [← hfg, ← Prod.mk.injEq, Prod.mk.eta, hrest]
        simp
      | true =>
        refine iff_of_false (fun h => ?_) (by simp)
        obtain ⟨salt, hsalt⟩ := takesSalt_get htake
        have hlost := @objectGet_scrubbedMembers hash m st' _ _ (h.2 ▸ hsalt)
        rw [hfg, scrubSalt, if_pos htake, objectGet_del, if_pos rfl] at hlost
        exact nomatch hlost

end

/-! ## The call -/

/-- The value can be forgotten with this salt. -/
def CanForget (hash : Json → Option String → String) (part : Json) (salt : String) : Prop :=
  ∃ fp hc, forget hash part = .ok fp ∧ dumpAndHash hash fp (some salt) = .ok hc

/-- What the call with a member and the values of `$forgettable` and `$forgotten` finds. -/
structure ForgetFound (json : Json) (field : String) (members : List (String × Json)) (part fg : Json) :
    Prop where
  eq : json = .object members
  part : get members field = some part
  fg : get members "$forgettable" = some fg

/-- A condition on what is found: there is `$forgotten`, and nothing can fail behind the first
change. -/
def HarmlessCall (hash : Json → Option String → String) (field : String) (part fg : Json) :
    Option Json → Prop
  | none => ∃ salt, (fg.get? field).bind stringValue? = some salt ∧ CanForget hash part salt
  | some rx =>
    (rx.get? field).isSome ∨ ∀ salt, (fg.get? field).bind stringValue? = some salt →
      (CanForget hash part salt → ∃ r, rx = .object r) ∧
        (¬ CanForget hash part salt → ¬ LosesSalt hash part)

/-- A failed call leaves the object as it was. -/
def Atomic (hash : Json → Option String → String) (json : Json) (field : String) : Prop :=
  ∀ e, (partForget hash json field).2 = .error e →
    (partForget hash json field).1 = json ∧
      contractHash hash (partForget hash json field).1 = contractHash hash json

theorem atomic_of_eq {json : Json} {field : String} (h : (partForget hash json field).1 = json) :
    Atomic hash json field := fun _ _ => ⟨h, congrArg _ h⟩

theorem not_atomic {json json' : Json} {field : String} {e : HashError}
    (h : partForget hash json field = (json', .error e)) (hne : json' ≠ json) :
    ¬ Atomic hash json field := by
  intro hat
  refine hne ?_
  have heq := (hat e (by rw [h])).1
  rwa [h] at heq

theorem atomic_of_ok {json json' : Json} {field : String}
    (h : partForget hash json field = (json', .ok ())) : Atomic hash json field := by
  intro e he
  rw [h] at he
  exact nomatch he

variable {members : List (String × Json)} {json part fg : Json} {field : String}

/-- `$forgettable` is an object, with a salt. -/
theorem fg_of_salt {salt : String} (h : (fg.get? field).bind stringValue? = some salt) :
    ∃ g, fg = .object g ∧ get g field = some (.string salt) := by
  obtain ⟨v, hv, hs⟩ := Option.bind_eq_some_iff.1 h
  cases fg with
  | object g =>
    refine ⟨g, rfl, ?_⟩
    cases v with
    | string s =>
      cases hs
      exact hv
    | _ => exact nomatch hs
  | _ => exact nomatch hv

/-- An object is still one after `forget`. -/
theorem scrubbed_object (m : List (String × Json)) : ∃ m', scrubbed hash (.object m) = .object m' :=
  ⟨_, rfl⟩

theorem scrubbed_of_not_object {j : Json} (h : ¬ ∃ m, j = .object m) :
    ¬ ∃ m, scrubbed hash j = .object m := by
  rintro ⟨m, hm⟩
  cases j with
  | object m => exact h ⟨m, rfl⟩
  | array l =>
    unfold scrubbed at hm
    exact nomatch hm
  | _ => exact nomatch hm

/-- Members that are known to be different. -/
theorem ne_object_of_get {m m' : List (String × Json)} {k : String} (h : get m k ≠ get m' k) :
    Json.object m ≠ .object m' := fun heq => h (by rw [Json.object.inj heq])

/-- The call before it looks at the part. -/
theorem partForget_early (h : ForgetFound json field members part fg) {rx : Json}
    (hrx : (get members "$forgotten").getD (.object []) = rx)
    (hearly : (rx.get? field).isSome ∨ (fg.get? field).bind stringValue? = none) :
    ∃ e, partForget hash json field = (.object (set members "$forgotten" rx), .error e) := by
  obtain ⟨rfl, hpart, hfg⟩ := h
  unfold partForget
  dsimp only
  rw [hpart, hfg]
  dsimp only
  rw [hrx]
  cases hnew : rx.get? field with
  | some v => cases part <;> exact ⟨_, rfl⟩
  | none =>
    rw [hnew] at hearly
    rw [hearly.resolve_left Bool.false_ne_true]
    exact ⟨_, rfl⟩

/-- The call when the part cannot be forgotten. -/
theorem partForget_hashError (h : ForgetFound json field members part fg) {rx : Json}
    (hrx : (get members "$forgotten").getD (.object []) = rx) (hnew : rx.get? field = none)
    {salt : String} (hsalt : (fg.get? field).bind stringValue? = some salt)
    (hnot : ¬ CanForget hash part salt) :
    ∃ e, partForget hash json field =
      (.object (set (set members "$forgotten" rx) field (scrubbed hash part)), .error e) := by
  obtain ⟨rfl, hpart, hfg⟩ := h
  unfold partForget
  dsimp only
  rw [hpart, hfg]
  dsimp only
  rw [hrx, hnew, hsalt]
  dsimp only
  cases hfp : forget hash part with
  | error e => exact ⟨_, rfl⟩
  | ok fp =>
    dsimp only
    cases hhc : dumpAndHash hash fp (some salt) with
    | error e => exact ⟨_, rfl⟩
    | ok hc => exact absurd ⟨fp, hc, hfp, hhc⟩ hnot

/-- The order of the changes does not matter: the part is deleted in the end. -/
theorem del_changes {m : List (String × Json)} (hfg : get m "$forgettable" ≠ none)
    (rx sp : Json) {fg fg' rx' rx'' : Json} (hG : field ≠ "$forgettable" → fg = fg')
    (hF : field ≠ "$forgotten" → rx' = rx'') :
    del (set (set (set (set m "$forgotten" rx) field sp) "$forgettable" fg) "$forgotten" rx')
        field =
      del (set (set m "$forgettable" fg') "$forgotten" rx'') field := by
  have hFG : "$forgotten" ≠ "$forgettable" := by decide
  by_cases hfieldF : field = "$forgotten"
  · subst hfieldF
    rw [hG hFG, del_set_self, del_set_self, del_set_of_ne _ (Ne.symm hFG), del_set_self,
      del_set_self, del_set_of_ne _ (Ne.symm hFG)]
  · rw [hF hfieldF, del_set_of_ne _ (Ne.symm hfieldF), del_set_of_ne _ (Ne.symm hfieldF)]
    by_cases hfieldG : field = "$forgettable"
    · subst hfieldG
      rw [del_set_self, del_set_self, del_set_self, del_set_of_ne _ hFG, set_set]
    · have hget : get (del m field) "$forgettable" ≠ none := by
        rw [get_del, if_neg hfieldG]
        exact hfg
      rw [hG hfieldG, del_set_of_ne _ (Ne.symm hfieldG), del_set_self,
        del_set_of_ne _ (Ne.symm hfieldF), del_set_of_ne _ (Ne.symm hfieldG),
        set_comm (Ne.symm hFG) hget, set_set]

/-- The call when the part can be forgotten. -/
theorem partForget_canForget (h : ForgetFound json field members part fg) {rx : Json}
    (hrx : (get members "$forgotten").getD (.object []) = rx) (hnew : rx.get? field = none)
    {salt : String} (hsalt : (fg.get? field).bind stringValue? = some salt)
    (hcan : CanForget hash part salt) :
    (∃ g r fp hc, PartForgotten hash members g r field part fp salt hc ∧
      partForget hash json field = (.object (afterForget members g r field hc), .ok ())) ∨
    (¬ ∃ r, rx = .object r) ∧ ∃ members' fg', get members' "$forgettable" = some fg' ∧
      fg'.get? field = none ∧ partForget hash json field = (.object members', .error .sysErr) := by
  obtain ⟨fp, hc, hfp, hhc⟩ := hcan
  obtain ⟨rfl, hpart, hfg⟩ := h
  obtain ⟨g, rfl, hg⟩ := fg_of_salt hsalt
  have hFG : "$forgotten" ≠ "$forgettable" := by decide
  -- The value of `$forgettable` is still an object.
  obtain ⟨g', hg', hsame⟩ : ∃ g',
      get (set (set members "$forgotten" rx) field (scrubbed hash part)) "$forgettable" =
        some (.object g') ∧ (field ≠ "$forgettable" → g' = g) := by
    rw [get_set, get_set, if_neg hFG, hfg]
    by_cases hfield : field = "$forgettable"
    · rw [if_pos hfield]
      subst hfield
      obtain rfl : .object g = part := Option.some.inj (hfg.symm.trans hpart)
      obtain ⟨g', hg'⟩ := @scrubbed_object hash g
      exact ⟨g', congrArg some hg', fun hne => absurd rfl hne⟩
    · rw [if_neg hfield]
      exact ⟨g, rfl, fun _ => rfl⟩
  have hforgotten : get (set (set (set members "$forgotten" rx) field (scrubbed hash part))
      "$forgettable" (.object (del g' field))) "$forgotten" =
        some (if field = "$forgotten" then scrubbed hash part else rx) := by
    rw [get_set, get_set, get_set, if_neg (Ne.symm hFG), if_pos rfl]
    split_ifs <;> rfl
  have hpartF : field = "$forgotten" → part = rx := by
    rintro rfl
    rw [hpart] at hrx
    exact hrx
  generalize hcall : partForget hash (.object members) field = result
  unfold partForget at hcall
  dsimp only at hcall
  rw [hpart, hfg] at hcall
  dsimp only at hcall
  rw [hrx, hnew, hsalt, hfp] at hcall
  dsimp only at hcall
  rw [hhc] at hcall
  dsimp only at hcall
  have hdel : (Json.object g').del? field = some (.object (del g' field)) := rfl
  rw [hg', Option.bind_some, hdel] at hcall
  dsimp only at hcall
  rw [hforgotten, Option.bind_some] at hcall
  by_cases hobject : ∃ r, rx = .object r
  · refine Or.inl ?_
    obtain ⟨r, rfl⟩ := hobject
    obtain ⟨r', hr', hsame'⟩ : ∃ r',
        (if field = "$forgotten" then scrubbed hash part else .object r) =
          Json.object r' ∧ (field ≠ "$forgotten" → r' = r) := by
      by_cases hfield : field = "$forgotten"
      · rw [if_pos hfield, hpartF hfield]
        obtain ⟨r', hr'⟩ := @scrubbed_object hash r
        exact ⟨r', hr', fun hne => absurd hfield hne⟩
      · rw [if_neg hfield]
        exact ⟨r, rfl, fun _ => rfl⟩
    rw [hr'] at hcall
    refine ⟨g, r, fp, hc, ⟨hpart, hfg, hrx, hnew, hg, hfp, hhc⟩, hcall.symm.trans ?_⟩
    unfold afterForget
    refine congrArg (fun l => (Json.object l, Except.ok ())) (del_changes ?_ _ _ ?_ ?_)
    · rw [hfg]
      exact Option.some_ne_none _
    · intro hne
      rw [hsame hne]
    · intro hne
      rw [hsame' hne]
  · have hnone : (if field = "$forgotten" then scrubbed hash part else rx).set? field (.string hc) =
        none := by
      by_cases hfield : field = "$forgotten"
      · rw [if_pos hfield]
        have hnot := @scrubbed_of_not_object hash _ (hpartF hfield ▸ hobject)
        cases hs : scrubbed hash part with
        | object m => exact absurd ⟨m, hs⟩ hnot
        | _ => rfl
      · rw [if_neg hfield]
        cases rx with
        | object m => exact absurd ⟨m, rfl⟩ hobject
        | _ => rfl
    rw [hnone] at hcall
    exact Or.inr ⟨hobject, _, .object (del g' field), (get_set _ _ _ _).trans (if_pos rfl),
      (get_del g' field field).trans (if_pos rfl), hcall.symm⟩

/-- The call of an object in which there is nothing to forget. -/
theorem partForget_of_not_found
    (h : ¬ ∃ members part fg, ForgetFound json field members part fg) :
    partForget hash json field = (json, .error .sysErr) := by
  unfold partForget
  cases json with
  | object m =>
    dsimp only
    cases hpart : get m field with
    | none => rfl
    | some part =>
      cases hfg : get m "$forgettable" with
      | none => rfl
      | some fg => exact absurd ⟨m, part, fg, rfl, hpart, hfg⟩ h
  | _ => rfl

theorem contractPartForget_of_partForgotten {m g r : List (String × Json)} {fp : Json}
    {salt hc : String} (h : PartForgotten hash m g r field part fp salt hc) :
    contractPartForget hash (.object m) field = .ok (.object (afterForget m g r field hc)) := by
  have hnew : (Json.object r).get? field = none := h.notYet
  have hsalt : ((Json.object g).get? field).bind stringValue? = some salt := by
    change (get g field).bind stringValue? = some salt
    rw [h.getSalt]
    rfl
  unfold contractPartForget
  dsimp only
  rw [h.getPart, h.getFg]
  dsimp only
  rw [h.getRx, hnew, hsalt, h.forgotten]
  dsimp only
  rw [h.hashed]
  rfl

/-- **The model of the calls that succeed is refined**: both agree where a call succeeds. -/
theorem contractPartForget_eq_ok_iff {json' : Json} :
    contractPartForget hash json field = .ok json' ↔
      partForget hash json field = (json', .ok ()) := by
  constructor
  · intro h
    obtain ⟨m, g, r, part, fp, salt, hc, rfl, hpf, rfl⟩ := contractPartForget_eq_ok h
    have hsalt : ((Json.object g).get? field).bind stringValue? = some salt := by
      change (get g field).bind stringValue? = some salt
      rw [hpf.getSalt]
      rfl
    rcases partForget_canForget ⟨rfl, hpf.getPart, hpf.getFg⟩ hpf.getRx hpf.notYet hsalt
      ⟨fp, hc, hpf.forgotten, hpf.hashed⟩ with ⟨g', r', fp', hc', hpf', hcall⟩ | ⟨hobject, -⟩
    · have hcode := contractPartForget_of_partForgotten hpf'
      rw [h] at hcode
      rw [hcall, ← Except.ok.inj hcode]
    · exact absurd ⟨r, rfl⟩ hobject
  · intro h
    have hne : ∀ {j : Json} {e : HashError}, partForget hash json field ≠ (j, .error e) := by
      intro j e heq
      rw [h] at heq
      exact nomatch congrArg Prod.snd heq
    by_cases hfound : ∃ members part fg, ForgetFound json field members part fg
    · obtain ⟨members, part, fg, hf⟩ := hfound
      by_cases hearly : (((get members "$forgotten").getD (.object [])).get? field).isSome ∨
          (fg.get? field).bind stringValue? = none
      · obtain ⟨e, hcall⟩ := @partForget_early hash _ _ _ _ _ hf _ rfl hearly
        exact absurd hcall hne
      · rw [not_or, Bool.not_eq_true, Option.isSome_eq_false_iff,
          Option.isNone_iff_eq_none] at hearly
        obtain ⟨salt, hsalt⟩ := Option.ne_none_iff_exists'.1 hearly.2
        by_cases hcan : CanForget hash part salt
        · rcases partForget_canForget hf rfl hearly.1 hsalt hcan with
            ⟨g, r, fp, hc, hpf, hcall⟩ | ⟨-, members', fg', -, -, hcall⟩
          · obtain rfl := hf.eq
            rw [contractPartForget_of_partForgotten hpf]
            exact congrArg Except.ok (congrArg Prod.fst (hcall.symm.trans h))
          · exact absurd hcall hne
        · obtain ⟨e, hcall⟩ := partForget_hashError hf rfl hearly.1 hsalt hcan
          exact absurd hcall hne
    · exact absurd (partForget_of_not_found hfound) hne

/-- **When a failed call leaves the object as it was**: the call fails before it looks at
`$forgotten`, or what it finds is harmless. -/
theorem partForget_atomic_iff (hash : Json → Option String → String) (json : Json)
    (field : String) :
    Atomic hash json field ↔ ∀ members part fg, ForgetFound json field members part fg →
      HarmlessCall hash field part fg (get members "$forgotten") := by
  by_cases hfound : ∃ members part fg, ForgetFound json field members part fg
  · obtain ⟨members, part, fg, hf⟩ := hfound
    have hall : (∀ members part fg, ForgetFound json field members part fg →
        HarmlessCall hash field part fg (get members "$forgotten")) ↔
          HarmlessCall hash field part fg (get members "$forgotten") := by
      refine ⟨fun h => h members part fg hf, fun h members' part' fg' hf' => ?_⟩
      obtain rfl : members = members' := Json.object.inj (hf.eq.symm.trans hf'.eq)
      obtain rfl : part = part' := Option.some.inj (hf.part.symm.trans hf'.part)
      obtain rfl : fg = fg' := Option.some.inj (hf.fg.symm.trans hf'.fg)
      exact h
    rw [hall]
    obtain ⟨rfl, hpart, hfg⟩ := id hf
    generalize hrx : (get members "$forgotten").getD (.object []) = rx
    by_cases hearly : (rx.get? field).isSome ∨ (fg.get? field).bind stringValue? = none
    · obtain ⟨e, hcall⟩ := @partForget_early hash _ _ _ _ _ hf _ hrx hearly
      cases hF : get members "$forgotten" with
      | none =>
        rw [hF] at hrx
        subst hrx
        refine iff_of_false (not_atomic hcall (ne_object_of_get (k := "$forgotten") ?_)) ?_
        · rw [hF, get_set, if_pos rfl]
          exact Option.some_ne_none _
        · rintro ⟨salt, hsalt, -⟩
          have hnone := hearly.resolve_left Bool.false_ne_true
          exact Option.some_ne_none salt (hsalt.symm.trans hnone)
      | some rx' =>
        rw [hF] at hrx
        obtain rfl : rx' = rx := hrx
        rw [set_of_get hF] at hcall
        refine iff_of_true (atomic_of_eq (congrArg Prod.fst hcall)) ?_
        refine hearly.imp id fun hnone salt hsalt => ?_
        exact absurd (hsalt.symm.trans hnone) (Option.some_ne_none salt)
    · rw [not_or, Bool.not_eq_true, Option.isSome_eq_false_iff, Option.isNone_iff_eq_none] at hearly
      obtain ⟨hnew, hsome⟩ := hearly
      obtain ⟨salt, hsalt⟩ := Option.ne_none_iff_exists'.1 hsome
      have huniq : ∀ s, (fg.get? field).bind stringValue? = some s → salt = s := fun s hs =>
        Option.some.inj (hsalt.symm.trans hs)
      by_cases hcan : CanForget hash part salt
      · rcases partForget_canForget hf hrx hnew hsalt hcan with
          ⟨g, r, fp, hc, hpf, hcall⟩ | ⟨hobject, members', fg', hget, hdel, hcall⟩
        · refine iff_of_true (atomic_of_ok hcall) ?_
          cases hF : get members "$forgotten" with
          | none => exact ⟨salt, hsalt, hcan⟩
          | some rx' =>
            refine Or.inr fun s hs => ?_
            obtain rfl := huniq s hs
            exact ⟨fun _ => ⟨r, by rw [← hpf.getRx, hF]; rfl⟩, fun hn => absurd hcan hn⟩
        · have hne : Json.object members' ≠ .object members := by
            refine ne_object_of_get (k := "$forgettable") ?_
            rw [hget, hfg]
            intro heq
            rw [Option.some.inj heq] at hdel
            rw [hdel] at hsalt
            exact nomatch hsalt
          refine iff_of_false (not_atomic hcall hne) ?_
          cases hF : get members "$forgotten" with
          | none =>
            rw [hF] at hrx
            exact absurd ⟨[], hrx.symm⟩ hobject
          | some rx' =>
            rw [hF] at hrx
            obtain rfl : rx' = rx := hrx
            rintro (hnew' | hall')
            · rw [hnew] at hnew'
              exact Bool.false_ne_true hnew'
            · exact hobject ((hall' salt hsalt).1 hcan)
      · obtain ⟨e, hcall⟩ := @partForget_hashError hash _ _ _ _ _ hf _ hrx hnew _ hsalt hcan
        cases hF : get members "$forgotten" with
        | none =>
          refine iff_of_false (not_atomic hcall (ne_object_of_get (k := "$forgotten") ?_)) ?_
          · rw [hF, get_set, get_set, if_pos rfl]
            split_ifs <;> exact Option.some_ne_none _
          · rintro ⟨s, hs, hcan'⟩
            obtain rfl := huniq s hs
            exact hcan hcan'
        | some rx' =>
          rw [hF] at hrx
          obtain rfl : rx' = rx := hrx
          rw [set_of_get hF] at hcall
          have hharmless : HarmlessCall hash field part fg (some rx') ↔ ¬ LosesSalt hash part := by
            constructor
            · rintro (hnew' | hall')
              · rw [hnew] at hnew'
                exact absurd hnew' Bool.false_ne_true
              · exact (hall' salt hsalt).2 hcan
            · refine fun hno => Or.inr fun s hs => ?_
              obtain rfl := huniq s hs
              exact ⟨fun hcan' => absurd hcan' hcan, fun _ => hno⟩
          rw [hharmless, ← scrubbed_eq_self]
          constructor
          · intro hat
            have heq := (hat e (congrArg Prod.snd hcall)).1
            rw [hcall] at heq
            have hget : get (set members field (scrubbed hash part)) field = get members field := by
              rw [Json.object.inj heq]
            rw [get_set, if_pos rfl, hpart] at hget
            exact Option.some.inj hget
          · intro heq
            rw [heq, set_of_get hpart] at hcall
            exact atomic_of_eq (congrArg Prod.fst hcall)
  · refine iff_of_true (atomic_of_eq ?_) fun members part fg hf =>
      absurd ⟨members, part, fg, hf⟩ hfound
    rw [partForget_of_not_found hfound]

end Scrub

/-! ## A failed call that is noticed -/

/-- A hash that tells whether an object has one member. -/
def singleHash (json : Json) (_ : Option String) : String :=
  match json with
  | .object [_] => "one"
  | _ => "more"

/-- A contract in which a member has no salt. -/
def withoutSalt : Json := .object [("a", .integer 1), ("$forgettable", .object [])]

/-- The failed call adds an empty `$forgotten`, and the hash is another one. -/
theorem not_atomic_withoutSalt : ¬ Atomic singleHash withoutSalt "a" := by
  intro h
  exact absurd (h .sysErr rfl).2 (by decide)

end TalerExchange
