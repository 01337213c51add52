import TalerExchange.Machine.Assoc
import Mathlib.Data.String.Basic

/-!
# The hash of a contract

JSON values as jansson has them, and the functions of `json.c` on contracts: the hash, which replaces
forgettable members by their salted hashes, the salts, and forgetting a member for good.

* `Json`, `Json.WellFormed`: no object has two members of one name;
* `Json.canonical`: the members sorted, everywhere; `dumpAndHash`: an arbitrary function of it;
* `forget`, `contractHash`; `contractSeedForgettable`; `contractPartForget`;
* `canonical_object_congr`, `dumpAndHash_congr`: what the order of the members does not change.
-/

namespace TalerExchange

open Assoc

/-- A JSON value; a real number is never hashed, so its value is left out. -/
inductive Json
  | null
  | bool (b : Bool)
  | integer (n : ℤ)
  | real
  | string (s : String)
  | array (elements : List Json)
  | object (members : List (String × Json))

/-- `GNUNET_NO` and `GNUNET_SYSERR`. -/
inductive HashError
  | no
  | sysErr
deriving DecidableEq, Repr

namespace Json

/-- `json_object_get`. -/
def get? : Json → String → Option Json
  | .object m, k => get m k
  | _, _ => none

/-- `json_object_set_new`. -/
def set? : Json → String → Json → Option Json
  | .object m, k, v => some (.object (set m k v))
  | _, _, _ => none

/-- `json_object_del` for a member that is there. -/
def del? : Json → String → Option Json
  | .object m, k => some (.object (del m k))
  | _, _ => none

/-- `json_string_value`. -/
def stringValue? : Json → Option String
  | .string s => some s
  | _ => none

/-- The values of which jansson has a single copy. -/
def isConstant : Json → Bool
  | .null | .bool _ => true
  | _ => false

/-- Two pointers to constants are equal. -/
def sameConstant : Json → Json → Bool
  | .null, .null => true
  | .bool b, .bool b' => b = b'
  | _, _ => false

mutual

/-- `contains_real`. -/
def containsReal : Json → Bool
  | .real => true
  | .array l => containsRealElements l
  | .object m => containsRealMembers m
  | _ => false

def containsRealElements : List Json → Bool
  | [] => false
  | j :: l => containsReal j || containsRealElements l

def containsRealMembers : List (String × Json) → Bool
  | [] => false
  | (_, j) :: m => containsReal j || containsRealMembers m

end

mutual

/-- The value that the canonical encoding encodes: `JSON_SORT_KEYS`. -/
def canonical : Json → Json
  | .array l => .array (canonicalElements l)
  | .object m => .object (sortKeys (canonicalMembers m))
  | j => j

def canonicalElements : List Json → List Json
  | [] => []
  | j :: l => canonical j :: canonicalElements l

def canonicalMembers : List (String × Json) → List (String × Json)
  | [] => []
  | (k, j) :: m => (k, canonical j) :: canonicalMembers m

end

mutual

/-- No object has two members of one name. -/
def WellFormed : Json → Prop
  | .array l => WellFormedElements l
  | .object m => Keyed m ∧ WellFormedMembers m
  | _ => True

def WellFormedElements : List Json → Prop
  | [] => True
  | j :: l => WellFormed j ∧ WellFormedElements l

def WellFormedMembers : List (String × Json) → Prop
  | [] => True
  | (_, j) :: m => WellFormed j ∧ WellFormedMembers m

end

end Json

open Json

/-! ## The hash -/

/-- `dump_and_hash`: the hash as text, an arbitrary function of the canonical encoding and the salt. -/
def dumpAndHash (hash : Json → Option String → String) (json : Json) (salt : Option String) :
    Except HashError String :=
  if json.containsReal then .error .no else .ok (hash json.canonical salt)

/-- What the loop of `forget` over the members of an object keeps. -/
structure ForgetState where
  fg : Option Json
  rx : Option Json
  ret : List (String × Json) := []

/-- `json_object_get` of what may be `NULL`. -/
def objectGet (o : Option Json) (k : String) : Option Json := o.bind (·.get? k)

/-- A pointer, if there is one, is that to a constant. -/
def isSame (o : Option Json) (value : Json) : Bool := o.any (sameConstant · value)

variable (hash : Json → Option String → String)

/-- A member that is to be forgotten: its hash is kept, its salt is scrubbed. -/
def hashMember (st : ForgetState) (key : String) (t salt : Json) : Except HashError ForgetState :=
  match salt.stringValue? with
  | none => .error .no
  | some salt =>
    match dumpAndHash hash t (some salt) with
    | .error e => .error e
    | .ok hc =>
      match (st.rx.getD (.object [])).set? key (.string hc) with
      | none => .error .sysErr
      | some rx => .ok { st with fg := st.fg.bind (·.del? key), rx := some rx }

/-- One member; `t` is the value without its forgettable parts. The value is that of `$forgettable`
or `$forgotten` (of which there is a copy) if it is at the same address. -/
def forgetMember (st : ForgetState) (key : String) (value : Json) (t : Except HashError Json) :
    Except HashError ForgetState :=
  if key = "$forgettable" ∨ isSame st.fg value then .ok st
  else if isSame st.rx value then .ok st
  else if (objectGet st.rx key).isSome then .ok { st with ret := del st.ret key }
  else match t with
    | .error e => .error e
    | .ok t =>
      match objectGet st.fg key with
      | none => .ok { st with ret := set st.ret key t }
      | some salt => hashMember hash st key t salt

/-- The object that `forget` returns. -/
def ForgetState.result (st : ForgetState) : Json :=
  .object (match st.rx with
    | none => st.ret
    | some rx => set st.ret "$forgotten" rx)

mutual

/-- `forget`. -/
def forget : Json → Except HashError Json
  | .real => .error .no
  | .array l => (forgetElements l).map .array
  | .object m =>
    (forgetMembers ⟨get m "$forgettable", get m "$forgotten", []⟩ m).map ForgetState.result
  | j => .ok j

/-- The loop over an array. -/
def forgetElements : List Json → Except HashError (List Json)
  | [] => .ok []
  | j :: l =>
    match forget j with
    | .error e => .error e
    | .ok t => (forgetElements l).map (t :: ·)

/-- The loop over an object. -/
def forgetMembers (st : ForgetState) : List (String × Json) → Except HashError ForgetState
  | [] => .ok st
  | (key, value) :: m =>
    match forgetMember hash st key value (forget value) with
    | .error e => .error e
    | .ok st => forgetMembers st m

end

theorem forgetMembers_nil (st : ForgetState) : forgetMembers hash st [] = .ok st := by
  rw [forgetMembers]

/-- `TALER_JSON_contract_hash`. -/
def contractHash (json : Json) : Except HashError String :=
  match forget hash json with
  | .error e => .error e
  | .ok cjson => dumpAndHash hash cjson none

/-! ## Salts -/

/-- `seed_forgettable`: the members with salts, and how many salts have been drawn; `salt` is the
source of random numbers. -/
def seedForgettable (salt : ℕ → String) (n : ℕ) :
    List (String × Json) → Except HashError (List (String × Json) × ℕ)
  | [] => .ok ([], n)
  | (key, .string s) :: f =>
    (seedForgettable salt n f).map fun r => ((key, .string s) :: r.1, r.2)
  | (key, .bool true) :: f =>
    (seedForgettable salt (n + 1) f).map fun r => ((key, .string (salt n)) :: r.1, r.2)
  | _ :: _ => .error .sysErr

/-- `seed_forgettable` on the value of `$forgettable`, which has no members if it is not an object. -/
def seedValue (salt : ℕ → String) (n : ℕ) : Json → Except HashError (Json × ℕ)
  | .object f => (seedForgettable salt n f).map fun r => (.object r.1, r.2)
  | val => .ok (val, n)

/-- `json_object_set_new` under an assertion. -/
def assertSet (contract : Json) (key : String) (val : Json) : Except HashError Json :=
  match contract.set? key val with
  | none => .error .sysErr
  | some contract => .ok contract

mutual

/-- `TALER_JSON_contract_seed_forgettable`: the contract, and how many salts have been drawn. -/
def contractSeedForgettable (salt : ℕ → String) (n : ℕ) (contract : Json) :
    Json → Except HashError (Json × ℕ)
  | .object spec => seedMembers salt n contract spec
  | .array spec => seedElements salt n contract 0 spec
  | _ => .ok (contract, n)

/-- The loop over an object. -/
def seedMembers (salt : ℕ → String) (n : ℕ) (contract : Json) :
    List (String × Json) → Except HashError (Json × ℕ)
  | [] => .ok (contract, n)
  | (key, val) :: spec =>
    if key = "$forgettable" then do
      let (xval, n) ← seedValue salt n val
      let contract ← assertSet contract key xval
      seedMembers salt n contract spec
    else match contract.get? key with
      | none => seedMembers salt n contract spec
      | some cval => do
        let (cval, n) ← contractSeedForgettable salt n cval val
        let contract ← assertSet contract key cval
        seedMembers salt n contract spec

/-- The loop over an array. -/
def seedElements (salt : ℕ → String) (n : ℕ) (contract : Json) (index : ℕ) :
    List Json → Except HashError (Json × ℕ)
  | [] => .ok (contract, n)
  | val :: spec =>
    match contract with
    | .array l =>
      match l[index]? with
      | none => seedElements salt n contract (index + 1) spec
      | some ival => do
        let (ival, n) ← contractSeedForgettable salt n ival val
        seedElements salt n (.array (l.set index ival)) (index + 1) spec
    | _ => seedElements salt n contract (index + 1) spec

end

/-! ## Forgetting a member -/

/-- `TALER_JSON_contract_part_forget`: the object after a call that succeeds. -/
def contractPartForget (json : Json) (field : String) : Except HashError Json :=
  match json with
  | .object members =>
    match get members field with
    | none => .error .sysErr
    | some part =>
      match get members "$forgettable" with
      | none => .error .sysErr
      | some fg =>
        let rx := (get members "$forgotten").getD (.object [])
        match rx.get? field with
        | some _ =>
          match part with
          | .null => .error .no
          | _ => .error .sysErr
        | none =>
          match (fg.get? field).bind stringValue? with
          | none => .error .sysErr
          | some salt =>
            match forget hash part with
            | .error e => .error e
            | .ok fp =>
              match dumpAndHash hash fp (some salt) with
              | .error _ => .error .sysErr
              | .ok hc =>
                match fg.del? field, rx.set? field (.string hc) with
                | some fg, some rx =>
                  .ok (.object (del (set (set members "$forgettable" fg) "$forgotten" rx) field))
                | _, _ => .error .sysErr
  | _ => .error .sysErr

/-- A step of a path to a part of a contract. -/
inductive PathStep
  | member (key : String)
  | element (index : ℕ)
deriving DecidableEq, Repr

/-- A change of the part at a path. -/
def modifyAt (f : Json → Except HashError Json) : List PathStep → Json → Except HashError Json
  | [], j => f j
  | .member k :: path, .object m =>
    match get m k with
    | none => .error .sysErr
    | some v => (modifyAt f path v).map fun v => .object (set m k v)
  | .element i :: path, .array l =>
    match l[i]? with
    | none => .error .sysErr
    | some v => (modifyAt f path v).map fun v => .array (l.set i v)
  | _, _ => .error .sysErr

/-- A call of `TALER_JSON_contract_part_forget`: the object, and the field to forget. -/
structure ForgetCall where
  path : List PathStep
  field : String

/-- The contract after calls that all succeed. -/
def forgetAll : List ForgetCall → Json → Except HashError Json
  | [], json => .ok json
  | c :: calls, json =>
    match modifyAt (contractPartForget hash · c.field) c.path json with
    | .error e => .error e
    | .ok json => forgetAll calls json

/-! ## The order of the members -/

namespace Json

theorem canonicalMembers_eq (m : List (String × Json)) :
    canonicalMembers m = m.map fun e => (e.1, e.2.canonical) := by
  induction m with
  | nil => rfl
  | cons e m ih =>
    obtain ⟨k, j⟩ := e
    rw [canonicalMembers, List.map_cons, ih]

theorem keyed_canonicalMembers {m : List (String × Json)} (h : Keyed m) :
    Keyed (canonicalMembers m) := by
  unfold Keyed
  rw [canonicalMembers_eq, List.map_map]
  exact h

/-- **Objects with the same members are encoded alike.** -/
theorem canonical_object_congr {m m' : List (String × Json)} (h : Keyed m) (h' : Keyed m')
    (hget : ∀ k, (get m k).map canonical = (get m' k).map canonical) :
    canonical (.object m) = canonical (.object m') := by
  unfold canonical
  rw [sortKeys_congr (keyed_canonicalMembers h) (keyed_canonicalMembers h')]
  intro k
  rw [canonicalMembers_eq, canonicalMembers_eq, get_map, get_map, hget]

theorem containsRealMembers_eq (m : List (String × Json)) :
    containsRealMembers m = m.any fun e => e.2.containsReal := by
  induction m with
  | nil => rfl
  | cons e m ih =>
    obtain ⟨k, j⟩ := e
    rw [containsRealMembers, List.any_cons, ih]

theorem containsReal_sortKeys (m : List (String × Json)) :
    containsRealMembers (sortKeys m) = containsRealMembers m := by
  rw [containsRealMembers_eq, containsRealMembers_eq]
  exact (perm_sortKeys m).any_eq

mutual

theorem containsReal_canonical : (j : Json) → j.canonical.containsReal = j.containsReal
  | .array l => containsReal_canonicalElements l
  | .object m => (containsReal_sortKeys _).trans (containsReal_canonicalMembers m)
  | .null => rfl
  | .bool _ => rfl
  | .integer _ => rfl
  | .real => rfl
  | .string _ => rfl

theorem containsReal_canonicalElements :
    (l : List Json) → containsRealElements (canonicalElements l) = containsRealElements l
  | [] => rfl
  | j :: l =>
    congrArg₂ (· || ·) (containsReal_canonical j) (containsReal_canonicalElements l)

theorem containsReal_canonicalMembers :
    (m : List (String × Json)) → containsRealMembers (canonicalMembers m) = containsRealMembers m
  | [] => rfl
  | (_, j) :: m =>
    congrArg₂ (· || ·) (containsReal_canonical j) (containsReal_canonicalMembers m)

end

/-! ## Well-formed values -/

theorem wellFormedMembers_iff {m : List (String × Json)} :
    WellFormedMembers m ↔ ∀ e ∈ m, e.2.WellFormed := by
  induction m with
  | nil => exact iff_of_true trivial fun _ h => absurd h List.not_mem_nil
  | cons e m ih =>
    obtain ⟨k, j⟩ := e
    rw [List.forall_mem_cons, ← ih]
    exact Iff.rfl

theorem wellFormedElements_iff {l : List Json} :
    WellFormedElements l ↔ ∀ j ∈ l, j.WellFormed := by
  induction l with
  | nil => exact iff_of_true trivial fun _ h => absurd h List.not_mem_nil
  | cons j l ih =>
    rw [List.forall_mem_cons, ← ih]
    exact Iff.rfl

theorem wellFormed_get {m : List (String × Json)} (h : WellFormedMembers m) {k : String} {v : Json}
    (hk : get m k = some v) : v.WellFormed :=
  wellFormedMembers_iff.1 h (k, v) (mem_of_get hk)

theorem wellFormed_set {m : List (String × Json)} (h : WellFormedMembers m) (k : String) {v : Json}
    (hv : v.WellFormed) : WellFormedMembers (set m k v) := by
  induction m with
  | nil => exact ⟨hv, trivial⟩
  | cons e m ih =>
    obtain ⟨k', j⟩ := e
    unfold Assoc.set
    split_ifs
    · exact ⟨hv, h.2⟩
    · exact ⟨h.1, ih h.2⟩

theorem wellFormed_del {m : List (String × Json)} (h : WellFormedMembers m) (k : String) :
    WellFormedMembers (del m k) :=
  wellFormedMembers_iff.2 fun e he => wellFormedMembers_iff.1 h e (List.mem_of_mem_filter he)

end Json

/-- Only the canonical form is hashed. -/
theorem dumpAndHash_congr {t t' : Json} (h : t.canonical = t'.canonical) (salt : Option String) :
    dumpAndHash hash t salt = dumpAndHash hash t' salt := by
  have hreal : t.containsReal = t'.containsReal := by
    rw [← containsReal_canonical t, h, containsReal_canonical]
  unfold dumpAndHash
  rw [hreal, h]

end TalerExchange
