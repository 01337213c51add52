import TalerExchange.Amount.Text
import TalerExchange.Json.Contract
import TalerExchange.Kyc.Rules

/-!
# Published limits

`TALER_KYCLOGIC_rules_parse` reads the rules of an account from JSON, and
`TALER_KYCLOGIC_rules_to_limits` reads them once more for the limits that are published. The parsers of
points in time and timeframes come with GNUnet and are in the configuration.

* `Json.field`, `Json.optionalField`: the fields of `GNUNET_JSON_parse`;
* `parseKycRule`, `rulesParse`: the rules;
* `rulesToLimits`: the limits;
* `PublishedLimits`: they are those of the rules;
* **`publishedLimits_iff`**: when they are.
-/

namespace TalerExchange

/-! ## Fields -/

/-- A field of `GNUNET_JSON_parse`. -/
def Json.field {α : Type} (root : Json) (name : String) (parse : Json → Option α) : Option α :=
  (root.get? name).bind parse

/-- `GNUNET_JSON_spec_mark_optional`: an absent field leaves the variable alone. -/
def Json.optionalField {α : Type} (root : Json) (name : String) (parse : Json → Option α)
    (initial : α) : Option α :=
  match root.get? name with
  | none => some initial
  | some .null => some initial
  | some j => parse j

/-- `GNUNET_JSON_spec_uint32`. -/
def parseUint32 : Json → Option ℕ
  | .integer n => if 0 ≤ n ∧ n < 2 ^ 32 then some n.toNat else none
  | _ => none

/-- `GNUNET_JSON_spec_bool`. -/
def parseBool : Json → Option Bool
  | .bool b => some b
  | _ => none

/-- `GNUNET_JSON_spec_array_const`. -/
def parseArray : Json → Option (List Json)
  | .array elements => some elements
  | _ => none

/-- `GNUNET_JSON_spec_object_const`. -/
def parseObject : Json → Option (List (String × Json))
  | .object members => some members
  | _ => none

/-- `0 == strcasecmp (s, t)`. -/
def sameName (s t : String) : Bool := s.toUpper = t.toUpper

/-- The table in `parse_kycte`. -/
def kycteTable : List (String × KycTriggerEvent) :=
  [("NONE", .none), ("WITHDRAW", .withdraw), ("DEPOSIT", .deposit), ("MERGE", .p2pReceive),
   ("BALANCE", .walletBalance), ("CLOSE", .reserveClose), ("AGGREGATE", .aggregate),
   ("TRANSACTION", .transaction), ("REFUND", .refund)]

/-- `parse_kycte`; the events are numbered in the order of the table. -/
def parseKycte : Json → Option KycTriggerEvent
  | .string s => (kycteTable.find? fun e => sameName s e.1).map Prod.snd
  | .integer n => if 0 ≤ n then (kycteTable[n.toNat]?).map Prod.snd else none
  | _ => none

/-- An amount that was parsed. -/
def RawAmount.toAmount? (a : RawAmount) : Option Amount :=
  if h : a.value.toNat ≤ 2 ^ 52 ∧ a.fraction.toNat < 100000000 then
    some ⟨a.value.toNat, a.fraction.toNat, h.1, h.2⟩
  else none

/-- `parse_amount` with a currency. -/
def parseAmount (currency : String) : Json → Option Amount
  | .string s =>
    match RawAmount.stringToAmount RawAmount.invalid s.toList with
    | (.ok, a) => if sameName currency (String.ofList a.currency) then a.toAmount? else none
    | _ => none
  | _ => none

/-- `(unsigned int) n` is `n`. -/
def fitsUint (n : ℕ) : Option Unit := if n < 2 ^ 32 then some () else none

/-! ## Rules -/

/-- `struct TALER_KYCLOGIC_AmlProgram`, as far as measures are checked against it. -/
structure AmlProgram where
  programName : String
  requiredContexts : List String
  requiredAttributes : List String
deriving DecidableEq, Repr

/-- `struct TALER_KYCLOGIC_KycCheck`, as far as measures are checked against it. -/
structure KycCheck where
  checkName : String
  requires : List String
  outputs : List String
deriving DecidableEq, Repr

/-- What `kyclogic_api.c` has from the configuration, with the parsers of GNUnet. -/
structure KycLogic where
  currency : String
  amlPrograms : List AmlProgram
  kycChecks : List KycCheck
  timestamp : Json → Option ℕ
  relativeTime : Json → Option ℕ

/-- `struct TALER_KYCLOGIC_Measure` of a rule set. -/
structure CustomMeasure where
  measureName : String
  checkName : String
  progName : String
  context : Option Json
  voluntary : Bool

/-- `struct TALER_KYCLOGIC_LegitimizationRuleSet`. -/
structure LegitimizationRuleSet where
  expirationTime : ℕ
  successorMeasure : Option String
  kycRules : List KycRule
  customMeasures : List CustomMeasure

/-- `json_object_get` on the context. -/
def CustomMeasure.hasContext (m : CustomMeasure) (key : String) : Bool :=
  (m.context.bind (·.get? key)).isSome

variable (cfg : KycLogic)

/-- `check_measure`. -/
def checkMeasure (m : CustomMeasure) : Bool :=
  match cfg.amlPrograms.find? fun p => sameName m.progName p.programName with
  | none => false
  | some program =>
    if program.requiredContexts.all m.hasContext = false then false
    else if sameName m.checkName "SKIP" then program.requiredAttributes.isEmpty
    else match cfg.kycChecks.find? fun c => sameName m.checkName c.checkName with
      | none => false
      | some check =>
        (program.requiredAttributes.all fun a => check.outputs.any (sameName a)) &&
          check.requires.all m.hasContext

/-- The rule in an element of `rules`. -/
def parseKycRule (jrule : Json) : Option KycRule := do
  let trigger ← jrule.field "operation_type" parseKycte
  let threshold ← jrule.field "threshold" (parseAmount cfg.currency)
  let timeframe ← jrule.field "timeframe" cfg.relativeTime
  let jmeasures ← jrule.field "measures" parseArray
  let displayPriority ← jrule.field "display_priority" parseUint32
  let exposed ← jrule.optionalField "exposed" parseBool false
  let isAndCombinator ← jrule.optionalField "is_and_combinator" parseBool false
  fitsUint jmeasures.length
  let nextMeasures ← jmeasures.mapM Json.stringValue?
  some {
    timeframe := timeframe
    threshold := threshold
    nextMeasures := nextMeasures
    displayPriority := displayPriority
    trigger := trigger
    isAndCombinator := isAndCombinator
    exposed := exposed
    verboten := nextMeasures.any fun s => sameName s "verboten" }

/-- The measure in a member of `custom_measures`. -/
def parseCustomMeasure (member : String × Json) : Option CustomMeasure := do
  let checkName ← member.2.field "check_name" Json.stringValue?
  let progName ← member.2.field "prog_name" Json.stringValue?
  let context ← member.2.optionalField "context"
    (fun j => (parseObject j).map fun m => some (Json.object m)) none
  let voluntary ← member.2.optionalField "voluntary" parseBool false
  let measure : CustomMeasure := ⟨member.1, checkName, progName, context, voluntary⟩
  if checkMeasure cfg measure then some measure else none

/-- `TALER_KYCLOGIC_rules_parse`. -/
def rulesParse (jlrs : Json) : Option LegitimizationRuleSet := do
  let expirationTime ← jlrs.field "expiration_time" cfg.timestamp
  let successorMeasure ← jlrs.optionalField "successor_measure"
    (fun j => j.stringValue?.map some) none
  let jrules ← jlrs.field "rules" parseArray
  let jcustomMeasures ← jlrs.field "custom_measures" parseObject
  fitsUint jrules.length
  fitsUint jcustomMeasures.length
  let kycRules ← jrules.mapM (parseKycRule cfg)
  let customMeasures ← jcustomMeasures.mapM (parseCustomMeasure cfg)
  some ⟨expirationTime, successorMeasure, kycRules, customMeasures⟩

/-! ## Limits -/

/-- `AccountLimit`. -/
structure AccountLimit where
  ruleName : Option String
  softLimit : Bool
  operationType : KycTriggerEvent
  timeframe : ℕ
  threshold : Amount
deriving DecidableEq, Repr

/-- The limit of a rule. -/
def limitOf (rule : KycRule) : AccountLimit :=
  ⟨rule.ruleName, !rule.verboten, rule.trigger, rule.timeframe, rule.threshold⟩

/-- `TALER_KYCLOGIC_rules_to_limits` for the default rules. -/
def defaultLimits (rules : List KycRule) : List AccountLimit :=
  (rules.filter KycRule.exposed).map limitOf

/-- The elements that `json_array_foreach` goes over. -/
def Json.elements : Json → List Json
  | .array elements => elements
  | _ => []

/-- What is parsed for a limit: the limit if it were soft, the measures, and whether the rule is
exposed. `uninitialized` is what is in `rule_name` before. -/
def parseLimit (uninitialized : Option String) (root : Json) :
    Option (AccountLimit × List Json × Bool) := do
  let operationType ← root.field "operation_type" parseKycte
  let timeframe ← root.field "timeframe" cfg.relativeTime
  let threshold ← root.field "threshold" (parseAmount cfg.currency)
  let jmeasures ← root.field "measures" parseArray
  let exposed ← root.optionalField "exposed" parseBool false
  let ruleName ← root.optionalField "rule_name" (fun j => j.stringValue?.map some) uninitialized
  some (⟨ruleName, true, operationType, timeframe, threshold⟩, jmeasures, exposed)

/-- The loop over the rules. What it parses in each round is the list. -/
def limitsLoop (uninitialized : Option String) (jrules : Json) :
    List Json → Option (List AccountLimit)
  | [] => some []
  | _ :: rest =>
    match parseLimit cfg uninitialized jrules with
    | none => none
    | some (limit, jmeasures, exposed) =>
      if exposed = false then limitsLoop uninitialized jrules rest
      else do
        let measures ← jmeasures.mapM Json.stringValue?
        let limits ← limitsLoop uninitialized jrules rest
        some ({ limit with softLimit := !measures.any fun s => sameName "verboten" s } :: limits)

/-- `TALER_KYCLOGIC_rules_to_limits`. -/
def rulesToLimits (defaultRules : List KycRule) (uninitialized : Option String) :
    Option Json → Option (List AccountLimit)
  | none => some (defaultLimits defaultRules)
  | some jrules => limitsLoop cfg uninitialized jrules jrules.elements

/-- A limit without its name. -/
def AccountLimit.anonymous (limit : AccountLimit) : AccountLimit := { limit with ruleName := none }

/-- **The limits of the list are those of the rules**, in order and up to their names. -/
def PublishedLimits (defaultRules : List KycRule) (uninitialized : Option String)
    (jrules : List Json) (rules : List KycRule) : Prop :=
  ∃ limits, rulesToLimits cfg defaultRules uninitialized (some (.array jrules)) = some limits ∧
    limits.map AccountLimit.anonymous = (defaultLimits rules).map AccountLimit.anonymous

section Published

variable {cfg} {defaultRules : List KycRule} {uninitialized : Option String} {jlrs : Json}
  {jrules : List Json} {lrs : LegitimizationRuleSet}

/-- A list has no fields. -/
theorem parseLimit_array : parseLimit cfg uninitialized (.array jrules) = none := rfl

/-- The first rule of a list ends the loop. -/
theorem rulesToLimits_cons (j : Json) (rest : List Json) :
    rulesToLimits cfg defaultRules uninitialized (some (.array (j :: rest))) = none := by
  show limitsLoop cfg uninitialized (.array (j :: rest)) (j :: rest) = none
  rw [limitsLoop, parseLimit_array]

/-- The rules of an accepted rule set. -/
theorem rulesParse_kycRules (h : rulesParse cfg jlrs = some lrs)
    (hrules : jlrs.get? "rules" = some (.array jrules)) :
    jrules.mapM (parseKycRule cfg) = some lrs.kycRules := by
  have hfield : jlrs.field "rules" parseArray = some jrules := by
    unfold Json.field
    rw [hrules]
    rfl
  unfold rulesParse at h
  simp only [Option.bind_eq_bind, Option.bind_eq_some_iff] at h
  obtain ⟨_, -, _, -, jrules', hj, _, -, _, -, _, -, rules, hr, _, -, hlrs⟩ := h
  obtain rfl : jrules = jrules' := Option.some.inj (hfield.symm.trans hj)
  cases hlrs
  exact hr

/-- **The limits of an accepted list are those of its rules only for the empty list.** -/
theorem publishedLimits_iff (h : rulesParse cfg jlrs = some lrs)
    (hrules : jlrs.get? "rules" = some (.array jrules)) :
    PublishedLimits cfg defaultRules uninitialized jrules lrs.kycRules ↔ jrules = [] := by
  have hparsed := rulesParse_kycRules h hrules
  cases jrules with
  | nil =>
    refine iff_of_true ⟨[], rfl, ?_⟩ rfl
    rw [List.mapM_nil] at hparsed
    rw [← Option.some.inj hparsed]
    rfl
  | cons j rest =>
    refine iff_of_false ?_ (List.cons_ne_nil _ _)
    rintro ⟨limits, hl, -⟩
    rw [rulesToLimits_cons] at hl
    cases hl

end Published

/-- An exchange that takes times as plain numbers. -/
def plainLogic : KycLogic where
  currency := "EUR"
  amlPrograms := []
  kycChecks := []
  timestamp := parseUint32
  relativeTime := parseUint32

/-- Withdrawals of `100` are not allowed. -/
def verbotenRule : Json :=
  .object [("operation_type", .string "WITHDRAW"), ("threshold", .string "EUR:100"),
    ("timeframe", .integer 0), ("measures", .array [.string "verboten"]),
    ("display_priority", .integer 1), ("exposed", .bool true)]

/-- The rule set with this rule. -/
def verbotenRules : Json :=
  .object [("expiration_time", .integer 1000), ("rules", .array [verbotenRule]),
    ("custom_measures", .object [])]

theorem rulesParse_verbotenRules : ∃ lrs, rulesParse plainLogic verbotenRules = some lrs := by
  rw [← Option.isSome_iff_exists]
  decide +kernel

theorem publishedLimits_iff_verbotenRules : ∃ lrs, rulesParse plainLogic verbotenRules = some lrs ∧
    (PublishedLimits plainLogic [] none [verbotenRule] lrs.kycRules ↔ [verbotenRule] = []) := by
  obtain ⟨lrs, h⟩ := rulesParse_verbotenRules
  exact ⟨lrs, h, publishedLimits_iff h rfl⟩

/-- The rule is in force and not published. -/
theorem not_publishedLimits : ¬ ∀ (cfg : KycLogic) (defaultRules : List KycRule)
    (uninitialized : Option String) (jlrs : Json) (jrules : List Json)
    (lrs : LegitimizationRuleSet), rulesParse cfg jlrs = some lrs →
      jlrs.get? "rules" = some (.array jrules) →
        PublishedLimits cfg defaultRules uninitialized jrules lrs.kycRules := by
  intro h
  obtain ⟨lrs, hparse⟩ := rulesParse_verbotenRules
  obtain ⟨limits, hl, -⟩ := h plainLogic [] none verbotenRules [verbotenRule] lrs hparse rfl
  rw [rulesToLimits_cons] at hl
  cases hl

end TalerExchange
