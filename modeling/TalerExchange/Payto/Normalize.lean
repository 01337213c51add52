import TalerExchange.Payto.Iban

/-!
# Validation and normalisation of payto URIs

`TALER_payto_validate` and `TALER_payto_normalize`. The validator takes the IBAN after the last slash of
the URI, the normaliser counts the slashes before the query and gives up if there are more than four.

* `paytoGetKey`, `validatePaytoIban`, `validatePaytoXtalerbank`, `paytoValidate`;
* `normalizePaytoIban`, `paytoNormalize`;
* `three_le_count`: the URI of an IBAN has at least three slashes;
* **`paytoNormalize_iff`**: which valid URIs have a normal form.
-/

namespace TalerExchange

/-! ## Validation -/

/-- `PAYTO`. -/
def payto : List Char := "payto://".toList

/-- `payto_get_key`: the loop over the keys, from the separator before one on. -/
def paytoGetKeyFrom (uri searchKey : List Char) : ℕ → ℕ → Option (List Char)
  | 0, _ => none
  | n + 1, key =>
    if samePrefixIgnoringCase uri (key + 1) searchKey then
      match strchr uri (key + 1) '=' with
      | none => none
      | some start =>
        some (strndup uri (start + 1) ((strchr uri start '&').getD uri.length - start - 1))
    else match strchr uri (key + 1) '&' with
      | none => none
      | some key => paytoGetKeyFrom uri searchKey n key

/-- `payto_get_key`. -/
def paytoGetKey (uri searchKey : List Char) : Option (List Char) :=
  match strchr uri 0 '?' with
  | none => none
  | some key => paytoGetKeyFrom uri searchKey (uri.length + 1) key

/-- `TALER_payto_get_method`. -/
def paytoGetMethod (uri : List Char) : Option (List Char) :=
  if ¬ samePrefixIgnoringCase uri 0 payto then none
  else match strchr uri payto.length '/' with
    | none => none
    | some e => some (strndup uri payto.length (e - payto.length))

/-- `validate_payto_iban`, `none` for `NULL`. -/
def validatePaytoIban (uri : List Char) : Option String :=
  if ¬ samePrefixIgnoringCase uri 0 "payto://iban/".toList then none
  else
    let iban := (strrchr uri '/').getD 0 + 1
    let result := match strchr uri iban '?' with
      | some q => strndup uri iban (q - iban)
      | none => uri.drop iban
    match ibanValidate result with
    | some err => some err
    | none =>
      match paytoGetKey uri "receiver-name=".toList with
      | none => some "'receiver-name' parameter missing"
      | some _ => none

/-- Where the last segment before `e` begins, from the segment at `beg` on. -/
def lastSegment (uri : List Char) (e : ℕ) : ℕ → ℕ → ℕ
  | 0, beg => beg
  | n + 1, beg =>
    match strchr uri beg '/' with
    | some nxt => if nxt < e then lastSegment uri e n (nxt + 1) else beg
    | none => beg

/-- What the loop over the host keeps. -/
structure HostScan where
  dotOk : Bool := false
  postColon : Bool := false
  portOk : Bool := false

/-- `isalnum`, `-` and `_`. -/
def domainCharacter (c : Char) : Bool :=
  c = '-' || c = '_' || ('0' ≤ c && c ≤ '9') || ('a' ≤ c && c ≤ 'z') || ('A' ≤ c && c ≤ 'Z')

/-- The loop over the characters of the host. -/
def scanHost : HostScan → List Char → Except String HostScan
  | h, [] => .ok h
  | h, c :: host =>
    if c = '/' then .ok h
    else if c = ':' then scanHost { h with postColon := true } host
    else if h.postColon then
      if ¬ ('0' ≤ c ∧ c ≤ '9') then
        .error ("invalid character '" ++ String.ofList [c] ++ "' in port")
      else scanHost { h with portOk := true } host
    else if c = '.' then
      if ¬ h.dotOk then .error "invalid domain name (misplaced '.')"
      else scanHost { h with dotOk := false } host
    else if ¬ domainCharacter c then
      .error ("invalid character '" ++ String.ofList [c] ++ "' in domain name")
    else scanHost { h with dotOk := true } host

/-- `validate_payto_xtalerbank`, `none` for `NULL`. -/
def validatePaytoXtalerbank (uri : List Char) : Option String :=
  let xtalerbankPrefix := "payto://x-taler-bank/".toList
  if ¬ samePrefixIgnoringCase uri 0 xtalerbankPrefix then none
  else
    let host := xtalerbankPrefix.length
    match strchr uri host '/' with
    | none => some "account name missing"
    | some beg =>
      match strchr uri (beg + 1) '?' with
      | none => some "'receiver-name' parameter missing"
      | some e =>
        let user := lastSegment uri e uri.length (beg + 1)
        if user = host + 1 then some "domain name missing"
        else if uri[host]? = some '-' then some "invalid character '-' at start of domain name"
        else match scanHost {} (strndup uri host (user - host)) with
          | .error err => some err
          | .ok h =>
            if h.postColon ∧ ¬ h.portOk then some "port missing after ':'"
            else match paytoGetKey uri "receiver-name=".toList with
              | none => some "'receiver-name' parameter missing"
              | some _ => none

/-- `ALLOWED_CHARACTERS`. -/
def allowedCharacters : List Char :=
  ("abcdefghijklmnopqrstuvwxyzABCDEFGHIJKLMNOPQRSTUVWXYZ0123456789" ++
    "/:$&?!-_.,;=*+%~@()[]").toList

theorem allowedCharacters_eq : allowedCharacters =
    ['a', 'b', 'c', 'd', 'e', 'f', 'g', 'h', 'i', 'j', 'k', 'l', 'm', 'n', 'o', 'p', 'q', 'r',
     's', 't', 'u', 'v', 'w', 'x', 'y', 'z', 'A', 'B', 'C', 'D', 'E', 'F', 'G', 'H', 'I', 'J',
     'K', 'L', 'M', 'N', 'O', 'P', 'Q', 'R', 'S', 'T', 'U', 'V', 'W', 'X', 'Y', 'Z', '0', '1',
     '2', '3', '4', '5', '6', '7', '8', '9', '/', ':', '$', '&', '?', '!', '-', '_', '.', ',',
     ';', '=', '*', '+', '%', '~', '@', '(', ')', '[', ']'] :=
  String.toList_append.trans (congrArg₂ (· ++ ·) String.toList_ofList String.toList_ofList)

/-- `TALER_payto_validate`, `none` for `NULL`. -/
def paytoValidate (uri : List Char) : Option String :=
  if ¬ samePrefixIgnoringCase uri 0 payto then some "invalid prefix"
  else match uri.findIdx? (· ∉ allowedCharacters) with
    | some i =>
      some ("Encountered invalid character `" ++ String.ofList (strndup uri i 1) ++ "' at offset " ++
        toString i ++ " in payto URI `" ++ String.ofList uri ++ "'")
    | none =>
      match strchr uri payto.length '/' with
      | none => some "missing '/' in payload"
      | some _ =>
        match validatePaytoIban uri with
        | some err => some err
        | none => validatePaytoXtalerbank uri

/-! ## Normalisation -/

/-- Lower case up to the slash number `n`: `normalize_payto_x_taler_bank` and
`normalize_payto_bitcoin`. -/
def lowerBefore (n : ℕ) : ℕ → List Char → List Char
  | _, [] => []
  | sc, c :: input =>
    let sc := if c = '/' then sc + 1 else sc
    (if sc < n then c.toLower else c) :: lowerBefore n sc input

/-- `normalize_payto_x_taler_bank`. -/
def normalizePaytoXTalerBank (input : List Char) : List Char := lowerBefore 4 0 input

/-- `normalize_payto_bitcoin`. -/
def normalizePaytoBitcoin (input : List Char) : List Char := lowerBefore 3 0 input

/-- `normalize_payto_upi`. -/
def normalizePaytoUpi (input : List Char) : List Char := input.map Char.toLower

/-- `normalize_payto_ilp`. -/
def normalizePaytoIlp (input : List Char) : List Char := input.map Char.toLower

/-- The second loop of `normalize_payto_iban`. -/
def ibanWithoutBic (haveBic : Bool) : ℕ → List Char → List Char
  | _, [] => []
  | sc, c :: input =>
    let sc := if c = '/' then sc + 1 else sc
    if sc ≤ 2 then c.toLower :: ibanWithoutBic haveBic sc input
    else if sc = 3 then
      if haveBic then ibanWithoutBic haveBic sc input
      else c.toUpper :: ibanWithoutBic haveBic sc input
    else if sc = 4 then c.toUpper :: ibanWithoutBic haveBic sc input
    else ibanWithoutBic haveBic sc input

/-- `normalize_payto_iban`, `none` for `NULL`. -/
def normalizePaytoIban (input : List Char) : Option (List Char) :=
  let sc := input.count '/'
  if sc > 4 ∨ sc < 3 then none
  else some (ibanWithoutBic (sc = 4) 0 input)

/-- The URI without its query. -/
def beforeQuery (uri : List Char) : List Char := uri.take ((strchr uri 0 '?').getD uri.length)

/-- `TALER_payto_normalize`, `none` for `NULL`. -/
def paytoNormalize (uri : List Char) : Option (List Char) :=
  if (paytoValidate uri).isSome then none
  else match paytoGetMethod uri with
    | none => none
    | some method =>
      if sameIgnoringCase method "x-taler-bank".toList then
        some (normalizePaytoXTalerBank (beforeQuery uri))
      else if sameIgnoringCase method "iban".toList then normalizePaytoIban (beforeQuery uri)
      else if sameIgnoringCase method "upi".toList then some (normalizePaytoUpi (beforeQuery uri))
      else if sameIgnoringCase method "bitcoin".toList then
        some (normalizePaytoBitcoin (beforeQuery uri))
      else if sameIgnoringCase method "ilp".toList then some (normalizePaytoIlp (beforeQuery uri))
      else some (beforeQuery uri)

/-! ## Which URIs have a normal form -/

theorem sameIgnoringCase_iff {s t : List Char} :
    sameIgnoringCase s t = true ↔ s.map Char.toLower = t.map Char.toLower := decide_eq_true_iff

theorem beforeQuery_eq (uri : List Char) : beforeQuery uri = uri.takeWhile (· ≠ '?') := by
  unfold beforeQuery strchr
  have hmap : (uri.findIdx? (· = '?')).map (0 + ·) = uri.findIdx? (· = '?') := by
    simp only [Nat.zero_add, Option.map_id']
  rw [List.drop_zero, hmap, ← List.findIdx_eq_getD_findIdx?, List.takeWhile_eq_take_findIdx_not]
  simp only [decide_not, Bool.not_not]

/-- The method, with the prefix before it and a slash behind it. -/
theorem paytoGetMethod_eq_some {uri method : List Char} (h : paytoGetMethod uri = some method) :
    ∃ start rest, uri = start ++ method ++ '/' :: rest ∧ sameIgnoringCase start payto = true := by
  unfold paytoGetMethod at h
  split_ifs at h with hp
  cases he : strchr uri payto.length '/' with
  | none =>
    rw [he] at h
    exact nomatch h
  | some e =>
    rw [he] at h
    cases h
    obtain ⟨-, rest, hrest⟩ := strchr_eq_some he
    refine ⟨uri.take payto.length, rest, ?_, hp⟩
    rw [List.append_assoc, ← hrest, List.take_append_drop]

/-- The URI of an IBAN has at least three slashes before the query. -/
theorem three_le_count {uri method : List Char} (h : paytoGetMethod uri = some method)
    (hm : sameIgnoringCase method "iban".toList = true) : 3 ≤ (beforeQuery uri).count '/' := by
  obtain ⟨start, rest, rfl, hs⟩ := paytoGetMethod_eq_some h
  have hmap : (start ++ method).map Char.toLower = "payto://iban".toList := by
    rw [List.map_append, sameIgnoringCase_iff.1 hs, sameIgnoringCase_iff.1 hm]
    decide
  have hno : ∀ c ∈ start ++ method, decide (c ≠ '?') = true := by
    rintro c hc
    refine decide_eq_true ?_
    rintro rfl
    have hmem := List.mem_map_of_mem (f := Char.toLower) hc
    rw [hmap] at hmem
    exact absurd hmem (by decide)
  have hcount : (start ++ method).count '/' = 2 := by
    rw [← count_map_toLower (by decide), hmap]
    decide
  rw [beforeQuery_eq, List.takeWhile_append_of_pos hno, List.takeWhile_cons_of_pos (by decide),
    List.count_append, List.count_cons_self, hcount]
  omega

theorem paytoGetMethod_isSome {uri : List Char} (h : paytoValidate uri = none) :
    (paytoGetMethod uri).isSome = true := by
  unfold paytoValidate at h
  unfold paytoGetMethod
  split_ifs at h ⊢ with hp
  cases he : strchr uri payto.length '/' with
  | none =>
    rw [he] at h
    split at h <;> exact nomatch h
  | some e => rfl

/-- The method is `iban`, and more than one slash follows it. -/
def IbanTooLong (uri : List Char) : Prop :=
  ∃ method, paytoGetMethod uri = some method ∧ sameIgnoringCase method "iban".toList = true ∧
    4 < (beforeQuery uri).count '/'

theorem normalizePaytoIban_eq_none {input : List Char} (h : 3 ≤ input.count '/') :
    normalizePaytoIban input = none ↔ 4 < input.count '/' := by
  unfold normalizePaytoIban
  dsimp only
  split_ifs with hsc
  · exact iff_of_true rfl (by omega)
  · exact iff_of_false (fun h => nomatch h) (by omega)

/-- **A valid URI has a normal form unless it is that of an IBAN with more than one slash behind the
method.** -/
theorem paytoNormalize_iff {uri : List Char} (h : paytoValidate uri = none) :
    (paytoNormalize uri).isSome = true ↔ ¬ IbanTooLong uri := by
  obtain ⟨method, hm⟩ := Option.isSome_iff_exists.1 (paytoGetMethod_isSome h)
  unfold paytoNormalize
  rw [h, if_neg (fun h => nomatch h), hm]
  dsimp only
  have hother : ¬ sameIgnoringCase method "iban".toList = true → ¬ IbanTooLong uri := by
    rintro hno ⟨method', hm', hiban, -⟩
    rw [hm] at hm'
    cases hm'
    exact hno hiban
  by_cases hiban : sameIgnoringCase method "iban".toList = true
  · have hbank : ¬ sameIgnoringCase method "x-taler-bank".toList = true := by
      intro hbank
      rw [sameIgnoringCase_iff] at hiban hbank
      exact absurd (hiban.symm.trans hbank) (by decide)
    rw [if_neg hbank, if_pos hiban]
    have hiff := normalizePaytoIban_eq_none (three_le_count hm hiban)
    rw [← Option.ne_none_iff_isSome, ne_eq, hiff]
    exact not_congr ⟨fun hsc => ⟨method, hm, hiban, hsc⟩, fun ⟨_, _, _, hsc⟩ => hsc⟩
  · refine iff_of_true ?_ (hother hiban)
    rw [if_neg hiban]
    split_ifs <;> rfl

/-- The URI of an IBAN with two segments before the number. -/
def twoSegments : List Char :=
  "payto://iban/BIC/1/DE75512108001245126199?receiver-name=A".toList

theorem paytoValidate_twoSegments : paytoValidate twoSegments = none := by
  unfold paytoValidate
  rw [allowedCharacters_eq]
  decide +kernel

theorem paytoNormalize_iff_twoSegments :
    (paytoNormalize twoSegments).isSome = true ↔ ¬ IbanTooLong twoSegments :=
  paytoNormalize_iff paytoValidate_twoSegments

/-- A URI that is valid and has no normal form. -/
theorem not_paytoNormalize :
    ¬ ∀ uri : List Char, paytoValidate uri = none → (paytoNormalize uri).isSome = true := by
  intro h
  have hnone : paytoNormalize twoSegments = none := by
    unfold paytoNormalize
    rw [paytoValidate_twoSegments]
    decide +kernel
  have hsome := h twoSegments paytoValidate_twoSegments
  rw [hnone] at hsome
  exact nomatch hsome

end TalerExchange
