import TalerExchange.Json.Forget

/-!
# The signed content of a contract

Which members of a contract its hash depends on.

* `content`: a contract without its forgettable members; `NothingForgotten`;
* `Retained`: the canonical form has every member of the content, with its value;
* `SharesConstant`: `$forgettable` or `$forgotten` is the constant that a signed member is, too;
* `forgetMembers_lookups`: the loop of `forget` by lookups, for any value of `$forgotten`;
* **`content_retained_iff`**: when the content is retained, and known from the canonical form.
-/

namespace TalerExchange

open Assoc Json

/-! ## The content -/

/-- A member that is signed, by the value of `$forgettable`. -/
def IsSigned (fg : Option Json) (key : String) : Prop :=
  key ≠ "$forgettable" ∧ key ≠ "$forgotten" ∧ (objectGet fg key).isSome = false

instance decidableIsSigned (fg : Option Json) (key : String) : Decidable (IsSigned fg key) :=
  inferInstanceAs (Decidable (_ ∧ _ ∧ _))

/-- The value is at the address of `$forgettable` or of the copy of `$forgotten`. -/
def isShared (fg rx : Option Json) (value : Json) : Bool := isSame fg value || isSame rx value

mutual

/-- A contract without its forgettable members. -/
def content : Json → Json
  | .array l => .array (contentElements l)
  | .object m => .object (contentMembers (get m "$forgettable") m)
  | j => j

def contentElements : List Json → List Json
  | [] => []
  | j :: l => content j :: contentElements l

def contentMembers (fg : Option Json) : List (String × Json) → List (String × Json)
  | [] => []
  | (key, value) :: m =>
    if IsSigned fg key then (key, content value) :: contentMembers fg m else contentMembers fg m

end

mutual

/-- No object in the value has forgotten members. -/
def NothingForgotten : Json → Prop
  | .array l => NothingForgottenElements l
  | .object m => (∀ key, objectGet (get m "$forgotten") key = none) ∧ NothingForgottenMembers m
  | _ => True

def NothingForgottenElements : List Json → Prop
  | [] => True
  | j :: l => NothingForgotten j ∧ NothingForgottenElements l

def NothingForgottenMembers : List (String × Json) → Prop
  | [] => True
  | (_, j) :: m => NothingForgotten j ∧ NothingForgottenMembers m

end

mutual

/-- The form `t` has every signed member of the contract, with its value. -/
def Retained : Json → Json → Prop
  | .array l, t => ∃ l', t = .array l' ∧ RetainedElements l l'
  | .object m, t => RetainedMembers (get m "$forgettable") m t
  | j, t => t = j

def RetainedElements : List Json → List Json → Prop
  | [], l' => l' = []
  | j :: l, l' => ∃ t l'', l' = t :: l'' ∧ Retained j t ∧ RetainedElements l l''

def RetainedMembers (fg : Option Json) : List (String × Json) → Json → Prop
  | [], _ => True
  | (key, value) :: m, t =>
    (IsSigned fg key → ∃ t', t.get? key = some t' ∧ Retained value t') ∧ RetainedMembers fg m t

end

mutual

/-- A signed member is the constant that `$forgettable` or `$forgotten` of its object is. -/
def SharesConstant : Json → Prop
  | .array l => SharesConstantElements l
  | .object m => SharesConstantMembers (get m "$forgettable") (get m "$forgotten") m
  | _ => False

def SharesConstantElements : List Json → Prop
  | [] => False
  | j :: l => SharesConstant j ∨ SharesConstantElements l

def SharesConstantMembers (fg rx : Option Json) : List (String × Json) → Prop
  | [] => False
  | (key, value) :: m =>
    (IsSigned fg key ∧ (isShared fg rx value = true ∨ SharesConstant value)) ∨
      SharesConstantMembers fg rx m

end

mutual

/-- A canonical form without the hashes of the forgettable members. -/
def withoutForgotten : Json → Json
  | .array l => .array (withoutForgottenElements l)
  | .object m => .object (withoutForgottenMembers m)
  | j => j

def withoutForgottenElements : List Json → List Json
  | [] => []
  | j :: l => withoutForgotten j :: withoutForgottenElements l

def withoutForgottenMembers : List (String × Json) → List (String × Json)
  | [] => []
  | (key, value) :: m =>
    if key = "$forgotten" then withoutForgottenMembers m
    else (key, withoutForgotten value) :: withoutForgottenMembers m

end

section Signed

variable {hash : Json → Option String → String}

/-! ## The loop -/

/-- A state in which nothing that the members to come need has changed. -/
structure Fresh (fg rx : Option Json) (st : ForgetState) (m : List (String × Json)) : Prop where
  keyed : Keyed st.ret
  sameFg : ∀ value, isSame st.fg value = isSame fg value
  sameRx : ∀ value, isSame st.rx value = isSame rx value
  fg : ∀ k, get m k ≠ none → objectGet st.fg k = objectGet fg k
  rx : ∀ k, get m k ≠ none → objectGet st.rx k = none
  ret : ∀ k, get m k ≠ none → get st.ret k = none

/-- What a member becomes. -/
def keptValue (hash : Json → Option String → String) (fg rx : Option Json) (key : String)
    (value : Json) : Option Json :=
  if key = "$forgettable" ∨ isShared fg rx value ∨ (objectGet fg key).isSome then none
  else (forget hash value).toOption

/-- `$forgotten` after a member has been hashed is not a constant, nor was it before. -/
theorem isSame_set {rx : Option Json} {key : String} {v rx' : Json}
    (h : (rx.getD (.object [])).set? key v = some rx') (value : Json) :
    isSame (some rx') value = isSame rx value ∧
      ∀ k, key ≠ k → objectGet (some rx') k = objectGet rx k := by
  cases rx with
  | none =>
    cases h
    refine ⟨rfl, fun k hk => ?_⟩
    exact if_neg hk
  | some j =>
    cases j with
    | object r =>
      cases h
      exact ⟨rfl, fun k hk => (get_set r key k v).trans (if_neg hk)⟩
    | _ => exact nomatch h

/-- The step: the state after one member. -/
theorem Fresh.step {fg rx : Option Json} {st st' : ForgetState} {key : String} {value : Json}
    {m : List (String × Json)} (hst : Fresh fg rx st ((key, value) :: m)) (hkey : get m key = none)
    (h : forgetMember hash st key value (forget hash value) = .ok st') :
    Fresh fg rx st' m ∧
      (∀ x, get st'.ret x = if key = x then keptValue hash fg rx key value else get st.ret x) ∧
      (key = "$forgettable" ∨ isShared fg rx value = true ∨ ∃ t, forget hash value = .ok t) := by
  have hne : ∀ {k}, get m k ≠ none → key ≠ k := by
    rintro k hk rfl
    exact hk hkey
  have hin : ∀ {k}, get m k ≠ none → get ((key, value) :: m) k ≠ none := by
    intro k hk
    rwa [get_cons, if_neg (hne hk)]
  have hself : get ((key, value) :: m) key ≠ none := by
    rw [get_cons, if_pos rfl]
    exact Option.some_ne_none value
  have hret := hst.ret key hself
  have hrest : Fresh fg rx st m := ⟨hst.keyed, hst.sameFg, hst.sameRx,
    fun k hk => hst.fg k (hin hk), fun k hk => hst.rx k (hin hk), fun k hk => hst.ret k (hin hk)⟩
  unfold forgetMember at h
  rw [hst.sameFg, hst.sameRx, hst.rx key hself, hst.fg key hself] at h
  unfold keptValue isShared
  split_ifs at h with hfg hrx hfalse
  · cases h
    refine ⟨hrest, fun x => ?_, hfg.imp_right fun h => Or.inl (by rw [h]; rfl)⟩
    have hskip : key = "$forgettable" ∨ (isSame fg value || isSame rx value) = true ∨
        (objectGet fg key).isSome = true := hfg.imp_right fun h => Or.inl (by rw [h]; rfl)
    rw [if_pos hskip]
    split_ifs with hx
    · rw [← hx, hret]
    · rfl
  · cases h
    have hshared : (isSame fg value || isSame rx value) = true := by rw [hrx, Bool.or_true]
    refine ⟨hrest, fun x => ?_, Or.inr (Or.inl hshared)⟩
    rw [if_pos (Or.inr (Or.inl hshared))]
    split_ifs with hx
    · rw [← hx, hret]
    · rfl
  · exact absurd hfalse Bool.false_ne_true
  · rw [not_or] at hfg
    have hshared : (isSame fg value || isSame rx value) = false := by
      rw [Bool.or_eq_false_iff, ← Bool.not_eq_true, ← Bool.not_eq_true]
      exact ⟨hfg.2, hrx⟩
    cases ht : forget hash value with
    | error e =>
      rw [ht] at h
      exact nomatch h
    | ok t =>
      rw [ht] at h
      refine and_assoc.1 ⟨?_, Or.inr (Or.inr ⟨t, rfl⟩)⟩
      dsimp only at h
      cases hs : objectGet fg key with
      | none =>
        rw [hs] at h
        cases h
        refine ⟨⟨keyed_set hst.keyed _ _, hrest.sameFg, hrest.sameRx, hrest.fg, hrest.rx,
          fun k hk => ?_⟩, fun x => ?_⟩
        · rw [get_set, if_neg (hne hk)]
          exact hrest.ret k hk
        · have hkept : ¬ (key = "$forgettable" ∨ (isSame fg value || isSame rx value) = true ∨
              (none : Option Json).isSome = true) := by
            rw [hshared]
            simp [hfg.1]
          rw [get_set, if_neg hkept]
          rfl
      | some salt =>
        rw [hs] at h
        dsimp only at h
        unfold hashMember at h
        cases hstr : salt.stringValue? with
        | none =>
          rw [hstr] at h
          exact nomatch h
        | some s =>
          rw [hstr] at h
          dsimp only at h
          cases hd : dumpAndHash hash t (some s) with
          | error e =>
            rw [hd] at h
            exact nomatch h
          | ok hc =>
            rw [hd] at h
            dsimp only at h
            cases hset : (st.rx.getD (.object [])).set? key (.string hc) with
            | none =>
              rw [hset] at h
              exact nomatch h
            | some rx' =>
              rw [hset] at h
              cases h
              have hsalt : (objectGet st.fg key).isSome := by
                rw [hst.fg key hself, hs]
                rfl
              refine ⟨⟨hst.keyed, fun v => ?_, fun v => ?_, fun k hk => ?_, fun k hk => ?_,
                hrest.ret⟩, fun x => ?_⟩
              · exact (isSame_del st.fg key v hsalt).trans (hst.sameFg v)
              · exact ((isSame_set hset v).1).trans (hst.sameRx v)
              · dsimp only
                rw [objectGet_del, if_neg (hne hk)]
                exact hrest.fg k hk
              · exact ((isSame_set hset .null).2 k (hne hk)).trans (hrest.rx k hk)
              · have hsalted : key = "$forgettable" ∨ (isSame fg value || isSame rx value) = true ∨
                    (some salt).isSome = true := Or.inr (Or.inr rfl)
                rw [if_pos hsalted]
                split_ifs with hx
                · rw [← hx, hret]
                · rfl

/-- **The loop by lookups.** -/
theorem forgetMembers_lookups {fg rx : Option Json} : ∀ {m : List (String × Json)}
    {st st' : ForgetState}, Keyed m → Fresh fg rx st m → forgetMembers hash st m = .ok st' →
      Keyed st'.ret ∧ (∀ k, get m k = none → get st'.ret k = get st.ret k) ∧
      ∀ k v, get m k = some v → get st'.ret k = keptValue hash fg rx k v ∧
        (k = "$forgettable" ∨ isShared fg rx v = true ∨ ∃ t, forget hash v = .ok t)
  | [], st, st', _, hst, h => by
    rw [forgetMembers_nil] at h
    cases h
    exact ⟨hst.keyed, fun _ _ => rfl, fun _ _ h => nomatch h⟩
  | (key, value) :: m, st, st', hkeyed, hst, h => by
    obtain ⟨hkey, hm⟩ := keyed_cons.1 hkeyed
    rw [forgetMembers] at h
    cases hstep : forgetMember hash st key value (forget hash value) with
    | error e =>
      rw [hstep] at h
      cases h
    | ok st₁ =>
      rw [hstep] at h
      obtain ⟨hst₁, hret, hok⟩ := hst.step hkey hstep
      obtain ⟨hk', hnone, hsome⟩ := forgetMembers_lookups hm hst₁ h
      refine ⟨hk', fun k hk => ?_, fun k v hk => ?_⟩
      · rw [get_cons] at hk
        split_ifs at hk with hx
        rw [hnone k hk, hret, if_neg hx]
      · rw [get_cons] at hk
        split_ifs at hk with hx
        · cases hk
          subst hx
          rw [hnone key hkey, hret, if_pos rfl]
          exact ⟨rfl, hok⟩
        · exact hsome k v hk

/-- What `forget` makes of a signed member. -/
def SignedLookups (hash : Json → Option String → String) (fg rx : Option Json)
    (m : List (String × Json)) (t : Json) : Prop :=
  ∀ k v, get m k = some v → IsSigned fg k →
    (isShared fg rx v = true ∧ t.get? k = none) ∨
      isShared fg rx v = false ∧ ∃ t', forget hash v = .ok t' ∧ t.get? k = some t'

/-- The object that `forget` returns, by lookups. -/
theorem forget_object_lookups {m : List (String × Json)} {t : Json} (hkeyed : Keyed m)
    (hno : ∀ key, objectGet (get m "$forgotten") key = none) (h : forget hash (.object m) = .ok t) :
    (∃ r, t = .object r ∧ Keyed r ∧ ∀ k, k ≠ "$forgotten" →
      ¬ (IsSigned (get m "$forgettable") k ∧ (get m k).isSome) → get r k = none) ∧
    SignedLookups hash (get m "$forgettable") (get m "$forgotten") m t := by
  obtain ⟨st, hst, rfl⟩ := forget_object.1 h
  have hfresh : Fresh (get m "$forgettable") (get m "$forgotten")
      ⟨get m "$forgettable", get m "$forgotten", []⟩ m :=
    ⟨keyed_nil, fun _ => rfl, fun _ => rfl, fun _ _ => rfl, fun k _ => hno k, fun _ _ => rfl⟩
  obtain ⟨hret, hnone, hsome⟩ := forgetMembers_lookups hkeyed hfresh hst
  have hresult : ∃ r, st.result = .object r ∧ Keyed r ∧
      ∀ k, k ≠ "$forgotten" → get r k = get st.ret k := by
    unfold ForgetState.result
    cases st.rx with
    | none => exact ⟨st.ret, rfl, hret, fun _ _ => rfl⟩
    | some rx =>
      refine ⟨_, rfl, keyed_set hret _ _, fun k hk => ?_⟩
      rw [get_set, if_neg (Ne.symm hk)]
  obtain ⟨r, hr, hrkeyed, hget⟩ := hresult
  refine ⟨⟨r, hr, hrkeyed, fun k hk hnot => ?_⟩, fun k v hv hsigned => ?_⟩
  · rw [hget k hk]
    cases hv : get m k with
    | none => exact hnone k hv
    | some v =>
      rw [(hsome k v hv).1, keptValue, if_pos]
      by_contra hor
      rw [not_or, not_or, Bool.not_eq_true, Bool.not_eq_true] at hor
      exact hnot ⟨⟨hor.1, hk, hor.2.2⟩, by rw [hv]; rfl⟩
  · obtain ⟨hkept, hok⟩ := hsome k v hv
    rw [hr]
    change (_ ∧ get r k = none) ∨ _ ∧ ∃ t', _ ∧ get r k = some t'
    rw [hget k hsigned.2.1, hkept]
    unfold keptValue
    cases hshared : isShared (get m "$forgettable") (get m "$forgotten") v with
    | true => exact Or.inl ⟨rfl, if_pos (Or.inr (Or.inl rfl))⟩
    | false =>
      refine Or.inr ⟨rfl, ?_⟩
      rw [hshared] at hok
      obtain ⟨t, ht⟩ := (hok.resolve_left hsigned.1).resolve_left Bool.false_ne_true
      refine ⟨t, ht, ?_⟩
      rw [if_neg (by simp [hsigned.1, hsigned.2.2]), ht]
      rfl

/-! ## The members that are retained -/

theorem forget_array {l : List Json} {t : Json} (h : forget hash (.array l) = .ok t) :
    ∃ l', forgetElements hash l = .ok l' ∧ t = .array l' := by
  rw [forget] at h
  cases hl : forgetElements hash l with
  | error e =>
    rw [hl] at h
    cases h
  | ok l' =>
    rw [hl] at h
    exact ⟨l', rfl, (Except.ok.inj h).symm⟩

theorem forgetElements_cons {j : Json} {l l' : List Json}
    (h : forgetElements hash (j :: l) = .ok l') :
    ∃ t l'', forget hash j = .ok t ∧ forgetElements hash l = .ok l'' ∧ l' = t :: l'' := by
  rw [forgetElements] at h
  cases hj : forget hash j with
  | error e =>
    rw [hj] at h
    cases h
  | ok t =>
    rw [hj] at h
    dsimp only at h
    cases hl : forgetElements hash l with
    | error e =>
      rw [hl] at h
      cases h
    | ok l'' =>
      rw [hl] at h
      exact ⟨t, l'', rfl, rfl, (Except.ok.inj h).symm⟩

theorem SignedLookups.tail {fg rx : Option Json} {m : List (String × Json)} {key : String}
    {value t : Json} (hkey : get m key = none)
    (h : SignedLookups hash fg rx ((key, value) :: m) t) :
    SignedLookups hash fg rx m t := by
  refine fun k v hv => h k v ?_
  rw [get_cons, if_neg, hv]
  rintro rfl
  rw [hkey] at hv
  cases hv

mutual

/-- The content is retained if no signed member shares a constant. -/
theorem retained_iff : (j t : Json) → j.WellFormed → NothingForgotten j → forget hash j = .ok t →
    (Retained j t ↔ ¬ SharesConstant j)
  | .array l, t, hwf, hno, h => by
    obtain ⟨l', hl, rfl⟩ := forget_array h
    unfold Retained SharesConstant
    rw [← retainedElements_iff l l' hwf hno hl]
    constructor
    · rintro ⟨l'', heq, hret⟩
      rwa [Json.array.inj heq]
    · exact fun hret => ⟨l', rfl, hret⟩
  | .object m, t, hwf, hno, h =>
    retainedMembers_iff m t hwf.1 hwf.2 hno.2 (forget_object_lookups hwf.1 hno.1 h).2
  | .null, _, _, _, h => iff_of_true (Except.ok.inj h).symm id
  | .bool _, _, _, _, h => iff_of_true (Except.ok.inj h).symm id
  | .integer _, _, _, _, h => iff_of_true (Except.ok.inj h).symm id
  | .real, _, _, _, h => nomatch h
  | .string _, _, _, _, h => iff_of_true (Except.ok.inj h).symm id

theorem retainedElements_iff : (l l' : List Json) → WellFormedElements l →
    NothingForgottenElements l → forgetElements hash l = .ok l' →
      (RetainedElements l l' ↔ ¬ SharesConstantElements l)
  | [], _, _, _, h => iff_of_true (Except.ok.inj h).symm id
  | j :: l, l', hwf, hno, h => by
    obtain ⟨t, l'', hj, hl, rfl⟩ := forgetElements_cons h
    unfold RetainedElements SharesConstantElements
    rw [not_or, ← retained_iff j t hwf.1 hno.1 hj, ← retainedElements_iff l l'' hwf.2 hno.2 hl]
    constructor
    · rintro ⟨t', l₁, heq, ht, hl₁⟩
      obtain ⟨rfl, rfl⟩ := List.cons.inj heq
      exact ⟨ht, hl₁⟩
    · exact fun hret => ⟨t, l'', rfl, hret⟩

theorem retainedMembers_iff {fg rx : Option Json} : (m : List (String × Json)) → (t : Json) →
    Keyed m → WellFormedMembers m → NothingForgottenMembers m → SignedLookups hash fg rx m t →
      (RetainedMembers fg m t ↔ ¬ SharesConstantMembers fg rx m)
  | [], _, _, _, _, _ => iff_of_true trivial id
  | (key, value) :: m, t, hkeyed, hwf, hno, hlook => by
    obtain ⟨hkey, hm⟩ := keyed_cons.1 hkeyed
    unfold RetainedMembers SharesConstantMembers
    rw [not_or, ← retainedMembers_iff m t hm hwf.2 hno.2 (hlook.tail hkey)]
    refine and_congr_left fun _ => ?_
    rw [not_and]
    refine forall_congr' fun hsigned => ?_
    rcases hlook key value (if_pos rfl) hsigned with ⟨hshared, hget⟩ | ⟨hshared, t', ht, hget⟩
    · refine iff_of_false ?_ fun hn => hn (Or.inl hshared)
      rintro ⟨t', ht', -⟩
      rw [hget] at ht'
      exact nomatch ht'
    · rw [hshared, not_or, ← retained_iff value t' hwf.1 hno.1 ht]
      constructor
      · rintro ⟨t₁, ht₁, hret⟩
        rw [hget] at ht₁
        rw [Option.some.inj ht₁]
        exact ⟨Bool.false_ne_true, hret⟩
      · exact fun hret => ⟨t', hget, hret.2⟩

end

/-! ## The content of a canonical form -/

theorem withoutForgottenMembers_eq (m : List (String × Json)) :
    withoutForgottenMembers m =
      (m.filter (·.1 ≠ "$forgotten")).map fun e => (e.1, withoutForgotten e.2) := by
  induction m with
  | nil => rfl
  | cons e m ih =>
    obtain ⟨k, v⟩ := e
    unfold withoutForgottenMembers
    by_cases hk : k = "$forgotten"
    · rw [if_pos hk, ih, List.filter_cons_of_neg (by simp [hk])]
    · rw [if_neg hk, ih, List.filter_cons_of_pos (by simp [hk]), List.map_cons]

mutual

/-- The hashes can be left out before the members are sorted or after that. -/
theorem withoutForgotten_canonical : (j : Json) →
    withoutForgotten j.canonical = (withoutForgotten j).canonical
  | .array l => congrArg Json.array (withoutForgotten_canonicalElements l)
  | .object m => by
    change Json.object (withoutForgottenMembers (sortKeys (canonicalMembers m))) =
      .object (sortKeys (canonicalMembers (withoutForgottenMembers m)))
    rw [← withoutForgotten_canonicalMembers m, withoutForgottenMembers_eq,
      withoutForgottenMembers_eq, ← map_sortKeys]
    rw [filter_sortKeys fun k => decide (k ≠ "$forgotten")]
  | .null => rfl
  | .bool _ => rfl
  | .integer _ => rfl
  | .real => rfl
  | .string _ => rfl

theorem withoutForgotten_canonicalElements : (l : List Json) →
    withoutForgottenElements (canonicalElements l) = canonicalElements (withoutForgottenElements l)
  | [] => rfl
  | j :: l =>
    congrArg₂ List.cons (withoutForgotten_canonical j) (withoutForgotten_canonicalElements l)

theorem withoutForgotten_canonicalMembers : (m : List (String × Json)) →
    withoutForgottenMembers (canonicalMembers m) = canonicalMembers (withoutForgottenMembers m)
  | [] => rfl
  | (k, v) :: m => by
    have hv := withoutForgotten_canonical v
    have hm := withoutForgotten_canonicalMembers m
    rw [canonicalMembers, withoutForgottenMembers, withoutForgottenMembers]
    split_ifs
    · exact hm
    · rw [canonicalMembers, hv, hm]

end

theorem get_filter {m : List (String × Json)} (p : String → Bool) (k : String) :
    get (m.filter (p ·.1)) k = if p k then get m k else none := by
  induction m with
  | nil => split_ifs <;> rfl
  | cons e m ih =>
    obtain ⟨k', v⟩ := e
    rw [List.filter_cons, get_cons]
    dsimp only
    by_cases hk : k' = k
    · rw [if_pos hk, hk]
      split_ifs with hp
      · rw [get_cons, if_pos rfl]
      · rw [ih, if_neg hp]
    · rw [if_neg hk]
      split_ifs with hp hp' hp'
      · rw [get_cons, if_neg hk, ih, if_pos hp']
      · rw [get_cons, if_neg hk, ih, if_neg hp']
      · rw [ih, if_pos hp']
      · rw [ih, if_neg hp']

theorem keyed_filter {m : List (String × Json)} (h : Keyed m) (p : String × Json → Bool) :
    Keyed (m.filter p) := (List.filter_sublist.map Prod.fst).nodup h

theorem keyed_map {m : List (String × Json)} (h : Keyed m) (f : Json → Json) :
    Keyed (m.map fun e => (e.1, f e.2)) := by
  unfold Keyed
  rw [List.map_map]
  exact h

theorem get_withoutForgottenMembers (m : List (String × Json)) (k : String) :
    get (withoutForgottenMembers m) k =
      if k = "$forgotten" then none else (get m k).map withoutForgotten := by
  rw [withoutForgottenMembers_eq, get_map, get_filter fun k => decide (k ≠ "$forgotten")]
  by_cases hk : k = "$forgotten" <;> simp [hk]

theorem keyed_withoutForgottenMembers {m : List (String × Json)} (h : Keyed m) :
    Keyed (withoutForgottenMembers m) := by
  rw [withoutForgottenMembers_eq]
  exact keyed_map (keyed_filter h _) _

theorem contentMembers_eq (fg : Option Json) (m : List (String × Json)) :
    contentMembers fg m =
      (m.filter fun e => decide (IsSigned fg e.1)).map fun e => (e.1, content e.2) := by
  induction m with
  | nil => rfl
  | cons e m ih =>
    obtain ⟨k, v⟩ := e
    unfold contentMembers
    by_cases hk : IsSigned fg k
    · rw [if_pos hk, ih]
      simp [hk]
    · rw [if_neg hk, ih]
      simp [hk]

theorem get_contentMembers (fg : Option Json) (m : List (String × Json)) (k : String) :
    get (contentMembers fg m) k = if IsSigned fg k then (get m k).map content else none := by
  rw [contentMembers_eq, get_map, get_filter fun k => decide (IsSigned fg k)]
  by_cases hk : IsSigned fg k <;> simp [hk]

theorem keyed_contentMembers (fg : Option Json) {m : List (String × Json)} (h : Keyed m) :
    Keyed (contentMembers fg m) := by
  rw [contentMembers_eq]
  exact keyed_map (keyed_filter h _) _

theorem not_sharesConstant_get {fg rx : Option Json} {m : List (String × Json)}
    (h : ¬ SharesConstantMembers fg rx m) {k : String} {v : Json} (hv : get m k = some v)
    (hsigned : IsSigned fg k) : isShared fg rx v = false ∧ ¬ SharesConstant v := by
  induction m with
  | nil => exact nomatch hv
  | cons e m ih =>
    obtain ⟨k', v'⟩ := e
    unfold SharesConstantMembers at h
    rw [not_or] at h
    rw [get_cons] at hv
    split_ifs at hv with hk
    · cases hv
      rw [not_and, not_or, Bool.not_eq_true] at h
      exact h.1 (hk ▸ hsigned)
    · exact ih h.2 hv

mutual

/-- What a canonical form has besides the hashes is the content. -/
theorem canonical_content : (j t : Json) → j.WellFormed → NothingForgotten j →
    forget hash j = .ok t → ¬ SharesConstant j →
      (withoutForgotten t).canonical = (content j).canonical
  | .array l, t, hwf, hno, h, hshare => by
    obtain ⟨l', hl, rfl⟩ := forget_array h
    exact congrArg Json.array (canonical_contentElements l l' hwf hno hl hshare)
  | .object m, t, hwf, hno, h, hshare => by
    obtain ⟨⟨r, rfl, hr, hnone⟩, hlook⟩ := forget_object_lookups hwf.1 hno.1 h
    refine canonical_object_congr (keyed_withoutForgottenMembers hr)
      (keyed_contentMembers _ hwf.1) fun k => ?_
    rw [get_withoutForgottenMembers, get_contentMembers]
    by_cases hsigned : IsSigned (get m "$forgettable") k
    · rw [if_neg hsigned.2.1, if_pos hsigned]
      cases hv : get m k with
      | none =>
        rw [hnone k hsigned.2.1 fun hand => by rw [hv] at hand; exact Bool.false_ne_true hand.2]
        rfl
      | some v =>
        obtain ⟨hshared, hnot⟩ := not_sharesConstant_get hshare hv hsigned
        rcases hlook k v hv hsigned with ⟨hshared', -⟩ | ⟨-, t, ht, hget⟩
        · rw [hshared] at hshared'
          exact absurd hshared' Bool.false_ne_true
        · have hget' : get r k = some t := hget
          rw [hget', Option.map_some, Option.map_some, Option.map_some, Option.map_some,
            canonical_contentMembers m hwf.2 hno.2 (k, v) (mem_of_get hv) t ht hnot]
    · rw [if_neg hsigned]
      by_cases hk : k = "$forgotten"
      · rw [if_pos hk]
      · rw [if_neg hk, hnone k hk fun hand => hsigned hand.1]
        rfl
  | .null, _, _, _, h, _ => by
    cases h
    rfl
  | .bool _, _, _, _, h, _ => by
    cases h
    rfl
  | .integer _, _, _, _, h, _ => by
    cases h
    rfl
  | .real, _, _, _, h, _ => nomatch h
  | .string _, _, _, _, h, _ => by
    cases h
    rfl

theorem canonical_contentElements : (l l' : List Json) → WellFormedElements l →
    NothingForgottenElements l → forgetElements hash l = .ok l' → ¬ SharesConstantElements l →
      canonicalElements (withoutForgottenElements l') = canonicalElements (contentElements l)
  | [], _, _, _, h, _ => by
    cases h
    rfl
  | j :: l, l', hwf, hno, h, hshare => by
    obtain ⟨t, l'', hj, hl, rfl⟩ := forgetElements_cons h
    unfold SharesConstantElements at hshare
    rw [not_or] at hshare
    exact congrArg₂ List.cons (canonical_content j t hwf.1 hno.1 hj hshare.1)
      (canonical_contentElements l l'' hwf.2 hno.2 hl hshare.2)

theorem canonical_contentMembers : (m : List (String × Json)) → WellFormedMembers m →
    NothingForgottenMembers m → ∀ e ∈ m, ∀ t, forget hash e.2 = .ok t → ¬ SharesConstant e.2 →
      (withoutForgotten t).canonical = (content e.2).canonical
  | [], _, _, _, he, _, _, _ => absurd he List.not_mem_nil
  | (k, v) :: m, hwf, hno, e, he, t, ht, hshare => by
    rcases List.mem_cons.1 he with rfl | he
    · exact canonical_content v t hwf.1 hno.1 ht hshare
    · exact canonical_contentMembers m hwf.2 hno.2 e he t ht hshare

end

/-- **Signed content does not vanish**, except for members that share a constant with `$forgettable`
or `$forgotten`: the canonical form has every signed member if there is none of these, and then
contracts with the same canonical form have the same content. -/
theorem content_retained_iff {A a : Json} (hwf : A.WellFormed) (hno : NothingForgotten A)
    (h : forget hash A = .ok a) :
    (Retained A a ↔ ¬ SharesConstant A) ∧
      (¬ SharesConstant A → ∀ B b, B.WellFormed → NothingForgotten B → forget hash B = .ok b →
        ¬ SharesConstant B → a.canonical = b.canonical →
          (content A).canonical = (content B).canonical) := by
  refine ⟨retained_iff A a hwf hno h, fun hshare B b hwf' hno' h' hshare' heq => ?_⟩
  rw [← canonical_content A a hwf hno h hshare, ← canonical_content B b hwf' hno' h' hshare',
    ← withoutForgotten_canonical, ← withoutForgotten_canonical, heq]

end Signed

/-! ## Two contracts -/

/-- A contract with a forgettable member. -/
def signedContract : Json :=
  .object [("a", .bool true), ("b", .integer 1), ("$forgettable", .object [("b", .string "s")])]

theorem content_retained_iff_signedContract :
    Retained signedContract (.object [("a", .bool true),
      ("$forgotten", .object [("b", .string "h")])]) ∧
      ¬ SharesConstant signedContract := by
  have hwf : signedContract.WellFormed :=
    ⟨by unfold Keyed; decide, trivial, trivial, ⟨by unfold Keyed; decide, trivial, trivial⟩,
      trivial⟩
  have hno : NothingForgotten signedContract :=
    ⟨fun _ => rfl, trivial, trivial, ⟨fun _ => rfl, trivial, trivial⟩, trivial⟩
  have hshare : ¬ SharesConstant signedContract := by
    simp [signedContract, SharesConstant, SharesConstantMembers, IsSigned, isShared, isSame,
      sameConstant, objectGet]
  exact ⟨(@content_retained_iff (fun _ _ => "h") _ _ hwf hno rfl).1.2 hshare, hshare⟩

/-- The signed member `a` is true, and so is `$forgettable`: nothing of it is in the canonical
form. -/
theorem not_content_retained :
    ¬ ∀ (hash : Json → Option String → String) (A B a b : Json), A.WellFormed → B.WellFormed →
      NothingForgotten A → NothingForgotten B → forget hash A = .ok a → forget hash B = .ok b →
        a.canonical = b.canonical → (content A).canonical = (content B).canonical := by
  intro hall
  have h := hall (fun _ _ => "") (.object [("$forgettable", .bool true), ("a", .bool true)])
    (.object [("$forgettable", .bool true)]) _ _
    ⟨by unfold Keyed; decide, trivial, trivial, trivial⟩ ⟨by unfold Keyed; decide, trivial, trivial⟩
    ⟨fun _ => rfl, trivial, trivial, trivial⟩ ⟨fun _ => rfl, trivial, trivial⟩ rfl rfl rfl
  exact nomatch h

end TalerExchange
