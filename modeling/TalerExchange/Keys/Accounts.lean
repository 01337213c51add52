import TalerExchange.Json.Contract
import TalerExchange.Kyc.Limits
import TalerExchange.Machine.MapM
import TalerExchange.Payto.Normalize

/-!
# Wire accounts and their restrictions

The accounts of an exchange in a `/keys` response (`exchange_api_common.c`), and the test whether
money may go between one of them and another account (`exchange_api_restrictions.c`).

* `AccountRestriction`, `WireAccount`; `parseRestrictions`, `parseAccounts`;
* `Posix`: the regular expressions of the C library; `testAccountAllowed`;
* `testRestrictions_eq_ok`: what the loop over the restrictions lets through;
* **`enforced_iff`**: the accounts for which restrictions are enforced as they are published.
-/

namespace TalerExchange

/-! ## Fields -/

/-- `GNUNET_JSON_spec_string`. -/
def parseString : Json → Option String := Json.stringValue?

/-- `GNUNET_JSON_spec_int64`. -/
def parseInt64 : Json → Option ℤ
  | .integer n => if -2 ^ 63 ≤ n ∧ n < 2 ^ 63 then some n else none
  | _ => none

/-- `TALER_url_valid_charset`. -/
def urlValidCharset (url : List Char) : Bool :=
  url.all fun c => ('a' ≤ c && c ≤ 'z') || ('A' ≤ c && c ≤ 'Z') || ('0' ≤ c && c ≤ '9') ||
    "/:;&?-.,=_~%+#".toList.contains c

/-- `TALER_is_web_url`. -/
def isWebUrl (url : List Char) : Bool :=
  (samePrefixIgnoringCase url 0 "https://".toList ||
    samePrefixIgnoringCase url 0 "http://".toList) &&
    urlValidCharset url

/-- `parse_web_url`. -/
def parseWebUrl (j : Json) : Option String :=
  j.stringValue?.bind fun s => if isWebUrl s.toList then some s else none

/-- `parse_full_payto_uri`. -/
def parseFullPaytoUri (j : Json) : Option String :=
  j.stringValue?.bind fun s => if (paytoValidate s.toList).isSome then none else some s

/-! ## Restrictions -/

/-- `struct TALER_EXCHANGE_AccountRestriction`. -/
inductive AccountRestriction
  | invalid
  | deny
  | regex (posixEgrep humanHint : String) (humanHintI18n : Option Json)

/-- The fields of a restriction of type `regex`. -/
def parseRegex (jr : Json) : Option AccountRestriction := do
  let regex ← jr.field "payto_regex" parseString
  let hint ← jr.field "human_hint" parseString
  let humanHintI18n ← jr.optionalField "human_hint_i18n" (fun j => some (some j)) none
  some (.regex regex hint humanHintI18n)

/-- The body of the loop of `parse_restrictions`. -/
def parseRestriction (jr : Json) : Option AccountRestriction :=
  match (jr.get? "type").bind Json.stringValue? with
  | none => none
  | some type =>
    if type = "deny" then some .deny
    else if type = "regex" then parseRegex jr
    else none

/-- `parse_restrictions`. -/
def parseRestrictions : Json → Option (List AccountRestriction)
  | .array elements => (fitsUint elements.length).bind fun _ => elements.mapM parseRestriction
  | _ => none

/-! ## Accounts -/

/-- `struct TALER_EXCHANGE_WireAccount`. -/
structure WireAccount (Sig : Type) where
  fpaytoUri : String
  conversionUrl : Option String
  creditRestrictions : List AccountRestriction
  debitRestrictions : List AccountRestriction
  masterSig : Sig
  bankLabel : Option String
  priority : ℤ

/-- What `TALER_EXCHANGE_parse_accounts` calls: how a signature is read, and whether the master key
signed an account. -/
structure AccountSignature (Sig : Type) where
  parseSig : Json → Option Sig
  wireSignatureCheck : (paytoUri : String) → (conversionUrl : Option String) →
    (debitRestrictions creditRestrictions : Json) → Sig → Bool

variable {Sig : Type}

/-- The body of the loop of `TALER_EXCHANGE_parse_accounts`; signatures are checked if there is a
master public key. -/
def parseAccount (env : AccountSignature Sig) (masterPub : Bool) (account : Json) :
    Option (WireAccount Sig) := do
  let paytoUri ← account.field "payto_uri" parseFullPaytoUri
  let conversionUrl ←
    account.optionalField "conversion_url" (fun j => (parseWebUrl j).map some) none
  let priority ← account.optionalField "priority" parseInt64 0
  let bankLabel ← account.optionalField "bank_label" (fun j => (parseString j).map some) none
  let credit ← account.field "credit_restrictions" parseArray
  let debit ← account.field "debit_restrictions" parseArray
  let masterSig ← account.field "master_sig" env.parseSig
  let _ ← (if masterPub && !env.wireSignatureCheck paytoUri conversionUrl (.array debit)
    (.array credit) masterSig then none else some ())
  let creditRestrictions ← parseRestrictions (.array credit)
  let debitRestrictions ← parseRestrictions (.array debit)
  some {
    fpaytoUri := paytoUri
    conversionUrl := conversionUrl
    creditRestrictions := creditRestrictions
    debitRestrictions := debitRestrictions
    masterSig := masterSig
    bankLabel := bankLabel
    priority := priority }

/-- `TALER_EXCHANGE_parse_accounts`. -/
def parseAccounts (env : AccountSignature Sig) (masterPub : Bool) (accounts : List Json) :
    Option (List (WireAccount Sig)) :=
  accounts.mapM (parseAccount env masterPub)

/-! ## The test -/

/-- `regcomp` and `regexec`. -/
structure Posix (Compiled : Type) where
  regcomp : String → Option Compiled
  regexec : Compiled → List Char → ℤ

variable {Compiled : Type}

/-- The loop over the restrictions. -/
def testRestrictions (posix : Posix Compiled) (uri : List Char) : List AccountRestriction → Generic
  | [] => .ok
  | .invalid :: _ => .sysErr
  | .deny :: _ => .no
  | .regex posixEgrep _ _ :: ars =>
    match posix.regcomp posixEgrep with
    | none => .sysErr
    | some ex =>
      let allowed := posix.regexec ex uri ≠ 0
      if ¬ allowed then .no else testRestrictions posix uri ars

/-- The restrictions of a direction. -/
def WireAccount.restrictions (account : WireAccount Sig) (checkCredit : Bool) :
    List AccountRestriction :=
  if checkCredit then account.creditRestrictions else account.debitRestrictions

/-- `TALER_EXCHANGE_test_account_allowed`; a URI without a method is a `NULL` for `strcmp`. -/
def testAccountAllowed (posix : Posix Compiled) (account : WireAccount Sig) (checkCredit : Bool)
    (paytoUri : List Char) : Except Fault Generic :=
  match paytoGetMethod paytoUri, paytoGetMethod account.fpaytoUri.toList with
  | some wm1, some wm2 =>
    if wm1 ≠ wm2 then .ok .no
    else .ok (testRestrictions posix paytoUri (account.restrictions checkCredit))
  | _, _ => .error .assertion

/-! ## Enforcement -/

/-- The regular expressions in restrictions. -/
def regexes (ars : List AccountRestriction) : List String :=
  ars.filterMap fun
    | .regex posixEgrep _ _ => some posixEgrep
    | _ => none

/-- `regcomp` accepts the expressions, and `regexec` returns 0 exactly on a match. -/
structure Posix.Correct (posix : Posix Compiled) (Matches : String → List Char → Prop)
    (ars : List AccountRestriction) : Prop where
  exec : ∀ e ∈ regexes ars, ∃ ex, posix.regcomp e = some ex ∧
    ∀ uri, posix.regexec ex uri = 0 ↔ Matches e uri

/-- There is a restriction that denies everything. -/
def Denies (ars : List AccountRestriction) : Prop := AccountRestriction.deny ∈ ars

/-- The restrictions, as they are published, allow the URI. -/
structure Allowed (Matches : String → List Char → Prop) (account : WireAccount Sig)
    (checkCredit : Bool) (uri : List Char) : Prop where
  sameMethod : ∃ wm, paytoGetMethod uri = some wm ∧
    paytoGetMethod account.fpaytoUri.toList = some wm
  notDenied : ¬ Denies (account.restrictions checkCredit)
  eachMatches : ∀ e ∈ regexes (account.restrictions checkCredit), Matches e uri

/-- The test says what the restrictions say. -/
def Enforced (posix : Posix Compiled) (Matches : String → List Char → Prop)
    (account : WireAccount Sig) (checkCredit : Bool) (uri : List Char) : Prop :=
  testAccountAllowed posix account checkCredit uri = .ok .ok ↔
    Allowed Matches account checkCredit uri

/-! ## Parsed restrictions -/

theorem parseRestriction_ne_invalid {jr : Json} {ar : AccountRestriction}
    (h : parseRestriction jr = some ar) : ar ≠ .invalid := by
  rintro rfl
  unfold parseRestriction at h
  cases htype : (jr.get? "type").bind Json.stringValue? with
  | none =>
    rw [htype] at h
    exact nomatch h
  | some type =>
    rw [htype] at h
    dsimp only at h
    by_cases hdeny : type = "deny"
    · rw [if_pos hdeny] at h
      exact nomatch h
    by_cases hregex : type = "regex"
    swap
    · rw [if_neg hdeny, if_neg hregex] at h
      exact nomatch h
    rw [if_neg hdeny, if_pos hregex] at h
    unfold parseRegex at h
    simp only [Option.bind_eq_bind, Option.bind_eq_some_iff, Option.some.injEq, reduceCtorEq,
      and_false, exists_false] at h

theorem parseRestrictions_valid {j : Json} {ars : List AccountRestriction}
    (h : parseRestrictions j = some ars) : AccountRestriction.invalid ∉ ars := by
  unfold parseRestrictions at h
  cases j with
  | array elements =>
    obtain ⟨_, -, h⟩ := Option.bind_eq_some_iff.1 h
    intro hmem
    have hmap := mapM_eq_some.1 h
    have hsome : some AccountRestriction.invalid ∈ elements.map parseRestriction := by
      rw [hmap]
      exact List.mem_map_of_mem hmem
    obtain ⟨jr, -, hjr⟩ := List.mem_map.1 hsome
    exact parseRestriction_ne_invalid hjr rfl
  | _ => exact nomatch h

/-- The restrictions of a parsed account are parsed restrictions. -/
theorem restrictions_of_parseAccount {env : AccountSignature Sig} {masterPub : Bool}
    {account : Json}
    {wa : WireAccount Sig} (h : parseAccount env masterPub account = some wa) (checkCredit : Bool) :
    ∃ j, parseRestrictions j = some (wa.restrictions checkCredit) := by
  unfold parseAccount at h
  simp only [Option.bind_eq_bind, Option.bind_eq_some_iff, Option.some.injEq] at h
  obtain ⟨_, -, _, -, _, -, _, -, credit, -, debit, -, _, -, _, -, cr, hcr, dr, hdr, rfl⟩ := h
  cases checkCredit with
  | true => exact ⟨_, hcr⟩
  | false => exact ⟨_, hdr⟩

/-! ## The loop -/

/-- The loop lets through what matches none of the expressions. -/
theorem testRestrictions_eq_ok {posix : Posix Compiled} {Matches : String → List Char → Prop}
    {uri : List Char} {ars : List AccountRestriction} (hp : posix.Correct Matches ars)
    (hvalid : AccountRestriction.invalid ∉ ars) :
    testRestrictions posix uri ars = .ok ↔
      ¬ Denies ars ∧ ∀ e ∈ regexes ars, ¬ Matches e uri := by
  induction ars with
  | nil => exact iff_of_true rfl ⟨List.not_mem_nil, fun _ h => absurd h List.not_mem_nil⟩
  | cons ar ars ih =>
    rw [List.mem_cons, not_or] at hvalid
    obtain ⟨hne, hrest⟩ := hvalid
    cases ar with
    | invalid => exact absurd rfl hne
    | deny => exact iff_of_false (fun h => nomatch h) fun h => h.1 List.mem_cons_self
    | regex posixEgrep humanHint humanHintI18n =>
      have hregexes : regexes (.regex posixEgrep humanHint humanHintI18n :: ars) =
          posixEgrep :: regexes ars := rfl
      have hdenies : Denies (.regex posixEgrep humanHint humanHintI18n :: ars) ↔ Denies ars := by
        unfold Denies
        rw [List.mem_cons]
        exact or_iff_right fun h => nomatch h
      obtain ⟨ex, hex, hexec⟩ := hp.exec posixEgrep (hregexes ▸ List.mem_cons_self)
      have hp' : posix.Correct Matches ars :=
        ⟨fun e he => hp.exec e (hregexes ▸ List.mem_cons_of_mem _ he)⟩
      rw [hregexes, hdenies, List.forall_mem_cons, ← hexec uri]
      unfold testRestrictions
      rw [hex]
      by_cases h0 : posix.regexec ex uri = 0
      · simp [h0]
      · simp [h0, ih hp' hrest]

/-- **The restrictions are enforced as they are published** just if they do not decide by
expressions alone, or by some that match and some that do not. -/
theorem enforced_iff {env : AccountSignature Sig} {masterPub : Bool} {accounts : List Json}
    {was : List (WireAccount Sig)} (hparse : parseAccounts env masterPub accounts = some was)
    {wa : WireAccount Sig} (hwa : wa ∈ was) {posix : Posix Compiled}
    {Matches : String → List Char → Prop} (checkCredit : Bool)
    (hp : posix.Correct Matches (wa.restrictions checkCredit)) (uri : List Char) :
    Enforced posix Matches wa checkCredit uri ↔
      (¬ ∃ wm, paytoGetMethod uri = some wm ∧ paytoGetMethod wa.fpaytoUri.toList = some wm) ∨
      Denies (wa.restrictions checkCredit) ∨
      regexes (wa.restrictions checkCredit) = [] ∨
      ((∃ e ∈ regexes (wa.restrictions checkCredit), Matches e uri) ∧
        ∃ e ∈ regexes (wa.restrictions checkCredit), ¬ Matches e uri) := by
  have hvalid : AccountRestriction.invalid ∉ wa.restrictions checkCredit := by
    have hmem : some wa ∈ accounts.map (parseAccount env masterPub) := by
      rw [mapM_eq_some.1 hparse]
      exact List.mem_map_of_mem hwa
    obtain ⟨account, -, haccount⟩ := List.mem_map.1 hmem
    obtain ⟨j, hj⟩ := restrictions_of_parseAccount haccount checkCredit
    exact parseRestrictions_valid hj
  have hloop := @testRestrictions_eq_ok _ _ _ uri _ hp hvalid
  have htest : testAccountAllowed posix wa checkCredit uri = .ok .ok ↔
      (∃ wm, paytoGetMethod uri = some wm ∧ paytoGetMethod wa.fpaytoUri.toList = some wm) ∧
        testRestrictions posix uri (wa.restrictions checkCredit) = .ok := by
    unfold testAccountAllowed
    cases paytoGetMethod uri with
    | none => exact iff_of_false (fun h => nomatch h) fun h => by simp at h
    | some wm1 =>
      cases paytoGetMethod wa.fpaytoUri.toList with
      | none => exact iff_of_false (fun h => nomatch h) fun h => by simp at h
      | some wm2 =>
        simp only [Option.some.injEq, exists_eq_left']
        by_cases hwm : wm1 = wm2
        · simp [hwm]
        · simp [hwm, Ne.symm hwm]
  have hallowed : Allowed Matches wa checkCredit uri ↔
      (∃ wm, paytoGetMethod uri = some wm ∧ paytoGetMethod wa.fpaytoUri.toList = some wm) ∧
        ¬ Denies (wa.restrictions checkCredit) ∧
        ∀ e ∈ regexes (wa.restrictions checkCredit), Matches e uri :=
    ⟨fun h => ⟨h.sameMethod, h.notDenied, h.eachMatches⟩, fun h => ⟨h.1, h.2.1, h.2.2⟩⟩
  unfold Enforced
  rw [htest, hallowed, hloop]
  generalize regexes (wa.restrictions checkCredit) = es
  -- Both sides need the method and no `deny`; they differ in what each expression has to do.
  by_cases hmethod : ∃ wm, paytoGetMethod uri = some wm ∧
      paytoGetMethod wa.fpaytoUri.toList = some wm
  swap
  · exact iff_of_true (iff_of_false (fun h => hmethod h.1) fun h => hmethod h.1) (Or.inl hmethod)
  by_cases hdeny : Denies (wa.restrictions checkCredit)
  · exact iff_of_true (iff_of_false (fun h => h.2.1 hdeny) fun h => h.2.1 hdeny)
      (Or.inr (Or.inl hdeny))
  simp only [hmethod, hdeny, not_true_eq_false, not_false_eq_true, true_and, false_or]
  rcases es with _ | ⟨e, es⟩
  · simp
  constructor
  · intro h
    refine Or.inr ?_
    by_contra hmixed
    by_cases hall : ∀ e' ∈ e :: es, Matches e' uri
    · exact h.2 hall e List.mem_cons_self (hall e List.mem_cons_self)
    · have hnone : ∀ e' ∈ e :: es, ¬ Matches e' uri := by
        intro e' he' hm
        push Not at hall
        exact hmixed ⟨⟨e', he', hm⟩, hall⟩
      exact hall (h.1 hnone)
  · rintro (h | ⟨⟨e₁, he₁, hm⟩, e₂, he₂, hn⟩)
    · exact absurd h (List.cons_ne_nil _ _)
    · exact ⟨fun h => absurd hm (h e₁ he₁), fun h => absurd (h e₂ he₂) hn⟩

/-- Expressions without special characters: they match where they occur. -/
def literals : Posix String where
  regcomp e := some e
  regexec e uri := if uri.tails.any e.toList.isPrefixOf then 0 else 1

/-- What a literal matches. -/
def literalMatches (e : String) (uri : List Char) : Prop :=
  uri.tails.any e.toList.isPrefixOf = true

theorem literals_correct (ars : List AccountRestriction) : literals.Correct literalMatches ars := by
  refine ⟨fun e _ => ⟨e, rfl, fun uri => ?_⟩⟩
  unfold literals literalMatches
  dsimp only
  split_ifs with h
  · exact iff_of_true rfl h
  · exact iff_of_false (by decide) h

/-- Every signature is that of the master key. -/
def anySignature : AccountSignature String where
  parseSig := parseString
  wireSignatureCheck _ _ _ _ _ := true

/-- A restriction to accounts whose URI has a text in it. -/
def regexRestriction (text : String) : Json :=
  .object [("type", .string "regex"), ("payto_regex", .string text), ("human_hint", .string text)]

/-- An account that takes money from some accounts only. -/
def creditAccount (credit : List Json) : Json :=
  .object [("payto_uri", .string "payto://ach/1"), ("credit_restrictions", .array credit),
    ("debit_restrictions", .array []), ("master_sig", .string "sig")]

/-- What is parsed. -/
def restricted (credit : List AccountRestriction) : WireAccount String :=
  ⟨"payto://ach/1", none, credit, [], "sig", none, 0⟩

theorem parseAccounts_restricted :
    parseAccounts anySignature true [creditAccount
      [regexRestriction "ach", regexRestriction "sepa"],
        creditAccount [regexRestriction "ach"]] =
      some [restricted [.regex "ach" "ach" none, .regex "sepa" "sepa" none],
        restricted [.regex "ach" "ach" none]] := by
  rfl

theorem enforced_iff_restricted :
    Enforced literals literalMatches
      (restricted [.regex "ach" "ach" none, .regex "sepa" "sepa" none])
      true "payto://ach/2".toList := by
  refine (enforced_iff parseAccounts_restricted List.mem_cons_self true (literals_correct _) _).2 ?_
  refine Or.inr (Or.inr (Or.inr ⟨⟨"ach", List.mem_cons_self, ?_⟩, "sepa", ?_, ?_⟩))
  · unfold literalMatches
    decide
  · exact List.mem_cons_of_mem _ List.mem_cons_self
  · unfold literalMatches
    decide

/-- An account whose only expression matches is refused. -/
theorem not_enforced :
    ¬ ∀ (accounts : List Json) (was : List (WireAccount String)) (wa : WireAccount String)
      (checkCredit : Bool) (uri : List Char), parseAccounts anySignature true accounts = some was →
        wa ∈ was → Enforced literals literalMatches wa checkCredit uri := by
  intro h
  have hall := h _ _ (restricted [.regex "ach" "ach" none]) true "payto://ach/2".toList
    parseAccounts_restricted (List.mem_cons_of_mem _ List.mem_cons_self)
  have hallowed : Allowed literalMatches (restricted [.regex "ach" "ach" none]) true
      "payto://ach/2".toList := by
    refine ⟨⟨"ach".toList, by decide, by decide⟩, ?_, ?_⟩
    · unfold Denies
      intro hmem
      rcases List.mem_cons.1 hmem with hmem | hmem
      · cases hmem
      · cases hmem
    · intro e he
      obtain rfl := List.mem_singleton.1 he
      unfold literalMatches
      decide
  have htest := hall.2 hallowed
  revert htest
  decide

end TalerExchange
