import TalerExchange.Kyc.Limits
import Mathlib.Data.List.Sort
import Mathlib.Data.List.ReduceOption

/-!
# Default rules

`TALER_KYCLOGIC_kyc_init` reads checks, rules, AML programs and measures from the configuration and
stores the rules once more as JSON, which AML programs get as the rules of an account without rules
of its own. A section is what GNUnet reads from it, a missing or malformed value is `none`; a
provider is what its plugin makes of the section, a program what its command prints.

* `addCheck`, `addRule`, `addProgram`, `addMeasure`: the sections;
* `packKycRule`, `packDefaultRules`: the JSON;
* `kycInit`: all of it;
* `SurvivesSerialisation`: the parser of rule sets gets the rules back;
* **`not_survivesSerialisation`**: it does so for no configuration.
-/

namespace TalerExchange

/-! ## Sections -/

/-- What `strtok_r` separates at. -/
def isSeparator (c : Char) : Bool := c = ';' ∨ c = ' ' ∨ c = '\n' ∨ c = '\t'

/-- `add_tokens`. -/
def addTokens (input : String) : List String :=
  ((input.toList.splitOnP isSeparator).filter fun token => !token.isEmpty).map String.ofList

/-- A section `kyc-check-*`. -/
structure CheckSection where
  checkName : String
  type : Option String
  description : Option String
  descriptionI18n : Option (Option Json)
  requires : Option String
  outputs : Option String
  fallback : Option String
  formName : Option String
  providerId : Option String

/-- A section `kyc-rule-*`. -/
structure RuleSection where
  ruleName : String
  enabled : Option Bool
  threshold : Option String
  exposed : Option Bool
  isAndCombinator : Option Bool
  operationType : Option String
  timeframe : Option ℕ
  nextMeasures : Option String

/-- A section `aml-program-*`, with what its command prints for `-r`, `-a` and `-i`. -/
structure ProgramSection where
  programName : String
  command : Option String
  description : Option String
  fallback : Option String
  requiredContexts : Option String
  requiredAttributes : Option String
  requiredInputs : Option String

/-- A section `kyc-measure-*`. -/
structure MeasureSection where
  measureName : String
  checkName : Option String
  program : Option String
  voluntary : Option Bool
  context : Option Json

/-- The configuration. -/
structure KycConfiguration where
  currency : Option String
  providers : Option (List String)
  checks : List CheckSection
  rules : List RuleSection
  programs : List ProgramSection
  measures : List MeasureSection

/-- What GNUnet makes of times in JSON. -/
structure JsonTimes where
  timestamp : Json → Option ℕ
  relativeTime : Json → Option ℕ
  packTimestamp : ℕ → Json
  packTimeRel : ℕ → Json

/-- `enum TALER_KYCLOGIC_CheckType`. -/
inductive CheckType
  | info
  | form
  | link
deriving DecidableEq, Repr

/-- `check_type_from_string`. -/
def checkTypeFromString (s : String) : Option CheckType :=
  ([("INFO", .info), ("LINK", .link), ("FORM", .form)].find? fun e => sameName e.1 s).map Prod.snd

/-- The names `TALER_JSON_check_i18n` accepts. -/
def isLanguage (field : List Char) : Bool :=
  match field with
  | [a, b] => a.isAlpha && b.isAlpha
  | [a, b, '_', c, d] => a.isAlpha && b.isAlpha && c.isAlpha && d.isAlpha
  | [a, b, '_', c, d, e] => a.isAlpha && b.isAlpha && c.isAlpha && d.isAlpha && e.isAlpha
  | _ => false

/-- `TALER_JSON_check_i18n`. -/
def checkI18n : Json → Bool
  | .object members => members.all fun m => m.2.stringValue?.isSome && isLanguage m.1.toList
  | _ => false

/-- A check with its fallback. -/
structure ConfiguredCheck extends KycCheck where
  fallback : String
deriving DecidableEq, Repr

/-- What a check of each type needs. -/
def CheckSection.hasDetails (providers : List String) (s : CheckSection) : CheckType → Bool
  | .info => true
  | .form => s.formName.isSome
  | .link => s.providerId.any fun p => providers.any (sameName p)

/-- `add_check`. -/
def addCheck (providers : List String) (s : CheckSection) : Option ConfiguredCheck := do
  guard (sameName s.checkName "SKIP" = false)
  let ct ← s.type.bind checkTypeFromString
  guard s.description.isSome
  guard (s.descriptionI18n.all fun i18n => i18n.any checkI18n)
  let fallback ← s.fallback
  guard (s.hasDetails providers ct)
  some {
    checkName := s.checkName
    requires := addTokens (s.requires.getD "")
    outputs := addTokens (s.outputs.getD "")
    fallback := fallback }

/-- `TALER_KYCLOGIC_kyc_trigger_from_string`. -/
def kycTriggerFromString (s : String) : Option KycTriggerEvent :=
  ([("WITHDRAW", .withdraw), ("DEPOSIT", .deposit), ("MERGE", .p2pReceive),
    ("BALANCE", .walletBalance), ("CLOSE", .reserveClose), ("AGGREGATE", .aggregate),
    ("TRANSACTION", .transaction), ("REFUND", .refund)].find? fun e => sameName e.1 s).map Prod.snd

/-- A rule with the currency of its threshold. -/
structure ConfiguredRule extends KycRule where
  currency : List Char
deriving DecidableEq, Repr

/-- `TALER_config_get_amount`; of `GNUNET_NO` and `GNUNET_SYSERR` callers make the same. -/
def configGetAmount (s : Option String) : Option RawAmount :=
  s.bind fun str =>
    match RawAmount.stringToAmount RawAmount.invalid str.toList with
    | (.ok, a) => some a
    | _ => none

/-- The timeframe, which is needed except for the balance of a wallet. -/
def RuleSection.timeframeOf (s : RuleSection) (trigger : KycTriggerEvent) : Option ℕ :=
  if trigger = .walletBalance then some (s.timeframe.getD 0) else s.timeframe

/-- The rule of an enabled section. -/
def enabledRule (s : RuleSection) : Option ConfiguredRule := do
  let a ← configGetAmount s.threshold
  let threshold ← a.toAmount?
  let isAndCombinator ← s.isAndCombinator
  let trigger ← s.operationType.bind kycTriggerFromString
  let timeframe ← s.timeframeOf trigger
  let measures ← s.nextMeasures
  let nextMeasures := addTokens measures
  some {
    ruleName := some s.ruleName
    timeframe := timeframe
    threshold := threshold
    nextMeasures := nextMeasures
    displayPriority := 0
    trigger := trigger
    isAndCombinator := isAndCombinator
    exposed := s.exposed.getD false
    verboten := nextMeasures.any (sameName "verboten")
    currency := a.currency }

/-- `add_rule`: there may be no rule to add. -/
def addRule (s : RuleSection) : Option (Option ConfiguredRule) :=
  if s.enabled = some true then (enabledRule s).map some else some none

/-- `enum AmlProgramInputs`. -/
inductive AmlProgramInput
  | context
  | attributes
  | currentRules
  | defaultRules
  | amlHistory
  | kycHistory
deriving DecidableEq, Repr

/-- `1 == sscanf (dim, "[%lld]%c", …)`. -/
def scanDim (dim : List Char) : Bool :=
  let number := (dim.drop 1).dropWhile RawAmount.isSpace
  let digits := match number with
    | '+' :: digits | '-' :: digits => digits
    | digits => digits
  if (digits.head?.any Char.isDigit) = false then false
  else match digits.dropWhile Char.isDigit with
    | ']' :: _ :: _ => false
    | _ => true

/-- `parse_dim`. -/
def parseDim (tok : List Char) : Bool :=
  match tok.dropWhile (· ≠ '[') with
  | [] => true
  | dim => scanDim dim

/-- `strncasecmp (tok, name, strlen (name))`. -/
def hasName (name tok : String) : Bool :=
  sameName (String.ofList (tok.toList.take name.length)) name

/-- The loop body over what is printed for `-i`. -/
def programInput (tok : String) : Option AmlProgramInput :=
  if sameName tok "context" then some .context
  else if sameName tok "attributes" then some .attributes
  else if sameName tok "current_rules" then some .currentRules
  else if sameName tok "default_rules" then some .defaultRules
  else if hasName "aml_history" tok then
    if parseDim tok.toList then some .amlHistory else none
  else if hasName "kyc_history" tok then
    if parseDim tok.toList then some .kycHistory else none
  else none

/-- A program with its fallback and its inputs; none are `API_NONE`. -/
structure ConfiguredProgram extends AmlProgram where
  fallback : String
  inputMask : List AmlProgramInput
deriving DecidableEq, Repr

/-- `add_program`. -/
def addProgram (s : ProgramSection) : Option ConfiguredProgram := do
  guard s.command.isSome
  guard s.description.isSome
  let fallback ← s.fallback
  let requiredContexts ← s.requiredContexts
  let requiredAttributes ← s.requiredAttributes
  let requiredInputs ← s.requiredInputs
  let inputMask ← (addTokens requiredInputs).mapM programInput
  some {
    programName := s.programName
    requiredContexts := addTokens requiredContexts
    requiredAttributes := addTokens requiredAttributes
    fallback := fallback
    inputMask := inputMask }

/-- `add_measure`. -/
def addMeasure (s : MeasureSection) : Option CustomMeasure := do
  let program ← s.program
  let context ← s.context
  some {
    measureName := s.measureName
    checkName := s.checkName.getD "SKIP"
    progName := program
    context := some context
    voluntary := s.voluntary.getD false }

/-! ## The JSON -/

/-- `find_measure` in the default rules. -/
def findMeasure (measures : List CustomMeasure) (name : String) : Option CustomMeasure :=
  measures.find? fun m => sameName name m.measureName

/-- `TALER_JSON_pack_kycte`. -/
def packKycte : KycTriggerEvent → Json
  | .none => .string "NONE"
  | .withdraw => .string "WITHDRAW"
  | .deposit => .string "DEPOSIT"
  | .p2pReceive => .string "MERGE"
  | .walletBalance => .string "BALANCE"
  | .reserveClose => .string "CLOSE"
  | .aggregate => .string "AGGREGATE"
  | .transaction => .string "TRANSACTION"
  | .refund => .string "REFUND"

/-- `TALER_JSON_pack_amount`. -/
def packAmount (currency : List Char) (a : Amount) : Option Json :=
  (RawAmount.amountToString ⟨BitVec.ofNat 64 a.value, BitVec.ofNat 32 a.fraction, currency⟩).map
    fun s => .string (String.ofList s)

/-- The measures of a rule that are in its JSON. -/
def packedMeasures (rule : KycRule) : List String := rule.nextMeasures.filter (· ≠ "verboten")

/-- The members of the JSON of a rule, with that of its threshold. -/
def kycRuleMembers (times : JsonTimes) (rule : KycRule) (threshold : Json) : List (String × Json) :=
  [("rule_name", (rule.ruleName.map Json.string).getD .null),
    ("operation_type", packKycte rule.trigger),
    ("threshold", threshold),
    ("timeframe", times.packTimeRel rule.timeframe),
    ("measures", .array ((packedMeasures rule).map Json.string)),
    ("display_priority", .integer rule.displayPriority),
    ("exposed", .bool rule.exposed),
    ("is_and_combinator", .bool rule.isAndCombinator)]

/-- The JSON of a rule. -/
def packKycRule (times : JsonTimes) (measures : List CustomMeasure) (rule : ConfiguredRule) :
    Option Json := do
  guard ((packedMeasures rule.toKycRule).all fun name => (findMeasure measures name).isSome)
  let threshold ← packAmount rule.currency rule.threshold
  some (.object (kycRuleMembers times rule.toKycRule threshold))

/-- The members of `default_rules.jlrs`. -/
def packDefaultRules (times : JsonTimes) (jkycRules : List Json) : List (String × Json) :=
  [("expiration_time", times.packTimestamp (2 ^ 64 - 1)), ("rules", .array jkycRules)]

/-! ## Initialisation -/

/-- `default_rules`, with what rule sets are checked against. -/
structure DefaultRules where
  logic : KycLogic
  kycRules : List ConfiguredRule
  customMeasures : List CustomMeasure
  jlrs : List (String × Json)

/-- A fallback is a measure without a check whose program needs no inputs. -/
def checkFallback (programs : List ConfiguredProgram) (measures : List CustomMeasure)
    (fallback : String) : Bool :=
  match findMeasure measures fallback with
  | none => false
  | some m =>
    sameName m.checkName "SKIP" &&
      (programs.find? fun p => sameName m.progName p.programName).any fun p => p.inputMask.isEmpty

/-- `TALER_KYCLOGIC_kyc_init`; what is not `GNUNET_OK` is `none`. Rules of the same timeframe stay
in order. -/
def kycInit (times : JsonTimes) (cfg : KycConfiguration) : Option DefaultRules := do
  let currency ← cfg.currency
  let providers ← cfg.providers
  let kycChecks ← cfg.checks.mapM (addCheck providers)
  let rules ← cfg.rules.mapM addRule
  let amlPrograms ← cfg.programs.mapM addProgram
  let measures ← cfg.measures.mapM addMeasure
  let kycRules := rules.reduceOption.insertionSort fun r₁ r₂ => r₁.timeframe ≤ r₂.timeframe
  let jkycRules ← kycRules.mapM (packKycRule times measures)
  let logic : KycLogic := {
    currency := currency
    amlPrograms := amlPrograms.map ConfiguredProgram.toAmlProgram
    kycChecks := kycChecks.map ConfiguredCheck.toKycCheck
    timestamp := times.timestamp
    relativeTime := times.relativeTime }
  guard (measures.all (checkMeasure logic))
  guard (amlPrograms.all fun p => checkFallback amlPrograms measures p.fallback)
  guard (kycChecks.all fun c => checkFallback amlPrograms measures c.fallback)
  some {
    logic := logic
    kycRules := kycRules
    customMeasures := measures
    jlrs := packDefaultRules times jkycRules }

/-- A rule without its name. -/
def KycRule.anonymous (rule : KycRule) : KycRule := { rule with ruleName := none }

/-- **The default rules survive serialisation**: the parser gets the same rules, up to names. -/
def SurvivesSerialisation (d : DefaultRules) : Prop :=
  ∃ lrs, rulesParse d.logic (.object d.jlrs) = some lrs ∧
    lrs.kycRules = d.kycRules.map fun r => r.toKycRule.anonymous

section Serialised

variable {times : JsonTimes} {cfg : KycConfiguration} {d : DefaultRules}

/-- What the parser does not find. -/
theorem rulesParse_packDefaultRules (logic : KycLogic) (jkycRules : List Json) :
    rulesParse logic (.object (packDefaultRules times jkycRules)) = none := by
  have hmissing : Json.field (.object (packDefaultRules times jkycRules)) "custom_measures"
      parseObject = none := rfl
  unfold rulesParse
  rw [hmissing]
  simp

theorem kycInit_jlrs (h : kycInit times cfg = some d) :
    ∃ jkycRules, d.kycRules.mapM (packKycRule times d.customMeasures) = some jkycRules ∧
      d.jlrs = packDefaultRules times jkycRules := by
  unfold kycInit at h
  simp only [Option.bind_eq_bind, Option.bind_eq_some_iff] at h
  obtain ⟨_, -, _, -, _, -, rules, -, _, -, measures, -, jkycRules, hj, _, -, _, -, _, -, hd⟩ := h
  cases hd
  exact ⟨jkycRules, hj, rfl⟩

/-- **No configuration has default rules that survive serialisation.** -/
theorem not_survivesSerialisation (h : kycInit times cfg = some d) : ¬ SurvivesSerialisation d := by
  rintro ⟨lrs, hparse, -⟩
  obtain ⟨jkycRules, -, hjlrs⟩ := kycInit_jlrs h
  rw [hjlrs, rulesParse_packDefaultRules] at hparse
  cases hparse

end Serialised

/-- Times as numbers of microseconds. -/
def plainTimes : JsonTimes where
  timestamp := fun j => match j with
    | .integer n => some n.toNat
    | _ => none
  relativeTime := fun j => match j with
    | .integer n => some n.toNat
    | _ => none
  packTimestamp := fun t => .integer t
  packTimeRel := fun t => .integer t

/-- Withdrawals of `100` are not allowed. -/
def verbotenSection : RuleSection where
  ruleName := "withdraw-limit"
  enabled := some true
  threshold := some "EUR:100"
  exposed := some true
  isAndCombinator := some false
  operationType := some "WITHDRAW"
  timeframe := some 3600000000
  nextMeasures := some "verboten"

/-- The configuration with this rule. -/
def verbotenConfiguration : KycConfiguration where
  currency := some "EUR"
  providers := some []
  checks := []
  rules := [verbotenSection]
  programs := []
  measures := []

theorem kycInit_verboten : ∃ d, kycInit plainTimes verbotenConfiguration = some d := by
  rw [← Option.isSome_iff_exists]
  decide +kernel

theorem not_survivesSerialisation_verboten :
    ∃ d, kycInit plainTimes verbotenConfiguration = some d ∧ ¬ SurvivesSerialisation d := by
  obtain ⟨d, h⟩ := kycInit_verboten
  exact ⟨d, h, not_survivesSerialisation h⟩

/-- The rules of a configuration are not parsed. -/
theorem not_default_survive : ¬ ∀ (times : JsonTimes) (cfg : KycConfiguration) (d : DefaultRules),
    kycInit times cfg = some d → SurvivesSerialisation d := by
  intro h
  obtain ⟨d, hd⟩ := kycInit_verboten
  obtain ⟨lrs, hparse, -⟩ := h plainTimes verbotenConfiguration d hd
  obtain ⟨jkycRules, -, hjlrs⟩ := kycInit_jlrs hd
  rw [hjlrs, rulesParse_packDefaultRules] at hparse
  cases hparse

end TalerExchange
