import Mathlib.Data.List.Basic
import Mathlib.Tactic.Basic

/-!
# Compact JSON texts

The texts of a JSON value without blanks, by the ways to write a character in a string.

* `JsonValue`: a value, the members of its objects in the order of the text; `Numeral`;
* `JsonForm`, `DumpForm`, `RfcForm`: the forms of a character in any text, in a dump, and by
  RFC 8785;
* `Text`: the texts of a value; `rfcText`: the one by RFC 8785; `Text.mono`: more forms, more texts;
* `readForm_eq`, `JsonForm.unique`: a form of a character is read in one way;
* **`text_unique`**: so is the text of a value.
-/

namespace TalerExchange

/-! ## Values -/

/-- The characters of a number. -/
def isNumeralChar (c : Char) : Bool :=
  c.isDigit || c = '-' || c = '+' || c = '.' || c = 'e' || c = 'E'

/-- A number, by its numeral. -/
structure Numeral where
  text : List Char
  ne_nil : text ≠ []
  form : ∀ c ∈ text, isNumeralChar c = true

/-- A JSON value. -/
inductive JsonValue
  | null
  | bool (b : Bool)
  | number (n : Numeral)
  | string (s : List Char)
  | array (elements : List JsonValue)
  | object (members : List (List Char × JsonValue))

/-! ## The forms of a character -/

/-- The value of a hexadecimal digit, of either case. -/
def hexDigitValue (c : Char) : Option ℕ :=
  if '0' ≤ c ∧ c ≤ '9' then some (c.toNat - '0'.toNat)
  else if 'a' ≤ c ∧ c ≤ 'f' then some (c.toNat - 'a'.toNat + 10)
  else if 'A' ≤ c ∧ c ≤ 'F' then some (c.toNat - 'A'.toNat + 10)
  else none

/-- The value of four hexadecimal digits. -/
def hexValue (d₃ d₂ d₁ d₀ : Char) : Option ℕ :=
  match hexDigitValue d₃, hexDigitValue d₂, hexDigitValue d₁, hexDigitValue d₀ with
  | some x₃, some x₂, some x₁, some x₀ => some (((x₃ * 16 + x₂) * 16 + x₁) * 16 + x₀)
  | _, _, _, _ => none

/-- The character of an escape of two characters. -/
def shortEscape (e : Char) : Option Char :=
  if e = '"' then some '"'
  else if e = '\\' then some '\\'
  else if e = '/' then some '/'
  else if e = 'b' then some '\x08'
  else if e = 't' then some '\t'
  else if e = 'n' then some '\n'
  else if e = 'f' then some '\x0c'
  else if e = 'r' then some '\r'
  else none

/-- A control character. -/
def isControl (c : Char) : Bool := decide (c.toNat < 0x20)

/-- A character that may stand for itself. -/
def isPlain (c : Char) : Bool := !isControl c && c != '"' && c != '\\'

/-- The forms of a character in a string. -/
inductive JsonForm : Char → List Char → Prop
  | plain (c : Char) : isPlain c = true → JsonForm c [c]
  | short (e c : Char) : shortEscape e = some c → JsonForm c ['\\', e]
  | hex (d₃ d₂ d₁ d₀ c : Char) : hexValue d₃ d₂ d₁ d₀ = some c.toNat →
      JsonForm c ['\\', 'u', d₃, d₂, d₁, d₀]
  | pair (d₃ d₂ d₁ d₀ e₃ e₂ e₁ e₀ c : Char) (x y : ℕ) :
      hexValue d₃ d₂ d₁ d₀ = some (0xD800 + x) → hexValue e₃ e₂ e₁ e₀ = some (0xDC00 + y) →
        x < 0x400 → y < 0x400 → c.toNat = 0x10000 + x * 0x400 + y →
          JsonForm c ['\\', 'u', d₃, d₂, d₁, d₀, '\\', 'u', e₃, e₂, e₁, e₀]

/-- The forms in a dump: only the backslash, the quote and control characters are escaped. -/
inductive DumpForm : Char → List Char → Prop
  | plain (c : Char) : isPlain c = true → DumpForm c [c]
  | quote : DumpForm '"' ['\\', '"']
  | backslash : DumpForm '\\' ['\\', '\\']
  | short (e c : Char) : isControl c = true → shortEscape e = some c → DumpForm c ['\\', e]
  | hex (d₃ d₂ d₁ d₀ c : Char) : isControl c = true → hexValue d₃ d₂ d₁ d₀ = some c.toNat →
      DumpForm c ['\\', 'u', d₃, d₂, d₁, d₀]

/-- A hexadecimal digit in lower case. -/
def hexDigit (n : ℕ) : Char :=
  if n < 10 then Char.ofNat ('0'.toNat + n) else Char.ofNat ('a'.toNat + (n - 10))

/-- The form of a character by RFC 8785. -/
def rfcForm (c : Char) : List Char :=
  if c = '"' then ['\\', '"']
  else if c = '\\' then ['\\', '\\']
  else if c = '\x08' then ['\\', 'b']
  else if c = '\t' then ['\\', 't']
  else if c = '\n' then ['\\', 'n']
  else if c = '\x0c' then ['\\', 'f']
  else if c = '\r' then ['\\', 'r']
  else if isControl c then ['\\', 'u', '0', '0', hexDigit (c.toNat / 16), hexDigit (c.toNat % 16)]
  else [c]

/-! ## The texts of a value -/

/-- The texts of the characters of a string. -/
def CharsText (form : Char → List Char → Prop) : List Char → List Char → Prop
  | [], t => t = []
  | c :: s, t => ∃ x y, form c x ∧ CharsText form s y ∧ t = x ++ y

/-- The texts of a string. -/
def StringText (form : Char → List Char → Prop) (s t : List Char) : Prop :=
  ∃ x, CharsText form s x ∧ t = '"' :: (x ++ ['"'])

mutual

/-- The texts of a value. -/
def Text (form : Char → List Char → Prop) : JsonValue → List Char → Prop
  | .null, t => t = ['n', 'u', 'l', 'l']
  | .bool true, t => t = ['t', 'r', 'u', 'e']
  | .bool false, t => t = ['f', 'a', 'l', 's', 'e']
  | .number n, t => t = n.text
  | .string s, t => StringText form s t
  | .array [], t => t = ['[', ']']
  | .array (j :: l), t => ∃ x y, Text form j x ∧ ElementsText form l y ∧ t = '[' :: (x ++ y)
  | .object [], t => t = ['{', '}']
  | .object ((k, j) :: m), t => ∃ x y z, StringText form k x ∧ Text form j y ∧
      MembersText form m z ∧ t = '{' :: (x ++ ':' :: (y ++ z))

/-- The texts of further elements. -/
def ElementsText (form : Char → List Char → Prop) : List JsonValue → List Char → Prop
  | [], t => t = [']']
  | j :: l, t => ∃ x y, Text form j x ∧ ElementsText form l y ∧ t = ',' :: (x ++ y)

/-- The texts of further members. -/
def MembersText (form : Char → List Char → Prop) : List (List Char × JsonValue) → List Char → Prop
  | [], t => t = ['}']
  | (k, j) :: m, t => ∃ x y z, StringText form k x ∧ Text form j y ∧ MembersText form m z ∧
      t = ',' :: (x ++ ':' :: (y ++ z))

end

/-! ## The text by RFC 8785 -/

/-- The form of a character is the one of RFC 8785. -/
def RfcForm (c : Char) (x : List Char) : Prop := x = rfcForm c

/-- The text of a string by RFC 8785. -/
def rfcString (s : List Char) : List Char := '"' :: (s.flatMap rfcForm ++ ['"'])

mutual

/-- The compact text of a value with the forms of RFC 8785. -/
def rfcText : JsonValue → List Char
  | .null => ['n', 'u', 'l', 'l']
  | .bool true => ['t', 'r', 'u', 'e']
  | .bool false => ['f', 'a', 'l', 's', 'e']
  | .number n => n.text
  | .string s => rfcString s
  | .array [] => ['[', ']']
  | .array (j :: l) => '[' :: (rfcText j ++ rfcElements l)
  | .object [] => ['{', '}']
  | .object ((k, j) :: m) => '{' :: (rfcString k ++ ':' :: (rfcText j ++ rfcMembers m))

/-- The text of further elements. -/
def rfcElements : List JsonValue → List Char
  | [] => [']']
  | j :: l => ',' :: (rfcText j ++ rfcElements l)

/-- The text of further members. -/
def rfcMembers : List (List Char × JsonValue) → List Char
  | [] => ['}']
  | (k, j) :: m => ',' :: (rfcString k ++ ':' :: (rfcText j ++ rfcMembers m))

end

theorem charsText_rfcForm {s t : List Char} : CharsText RfcForm s t ↔ t = s.flatMap rfcForm := by
  induction s generalizing t with
  | nil => rfl
  | cons c s ih =>
    rw [List.flatMap_cons]
    constructor
    · rintro ⟨x, y, rfl, hy, rfl⟩
      rw [ih.mp hy]
    · rintro rfl
      exact ⟨_, _, rfl, ih.mpr rfl, rfl⟩

theorem stringText_rfcForm {s t : List Char} : StringText RfcForm s t ↔ t = rfcString s := by
  constructor
  · rintro ⟨x, hx, rfl⟩
    rw [charsText_rfcForm.mp hx, rfcString]
  · rintro rfl
    exact ⟨_, charsText_rfcForm.mpr rfl, rfl⟩

mutual

theorem text_rfcText : ∀ v : JsonValue, Text RfcForm v (rfcText v)
  | .null => rfl
  | .bool true => rfl
  | .bool false => rfl
  | .number _ => rfl
  | .string _ => stringText_rfcForm.mpr rfl
  | .array [] => rfl
  | .array (j :: l) => ⟨_, _, text_rfcText j, elementsText_rfcElements l, rfl⟩
  | .object [] => rfl
  | .object ((_, j) :: m) => ⟨_, _, _, stringText_rfcForm.mpr rfl, text_rfcText j,
      membersText_rfcMembers m, rfl⟩

theorem elementsText_rfcElements : ∀ l : List JsonValue, ElementsText RfcForm l (rfcElements l)
  | [] => rfl
  | j :: l => ⟨_, _, text_rfcText j, elementsText_rfcElements l, rfl⟩

theorem membersText_rfcMembers : ∀ m : List (List Char × JsonValue),
    MembersText RfcForm m (rfcMembers m)
  | [] => rfl
  | (_, j) :: m => ⟨_, _, _, stringText_rfcForm.mpr rfl, text_rfcText j,
      membersText_rfcMembers m, rfl⟩

end

/-! ## More and less forms -/

section Mono

variable {form form' : Char → List Char → Prop}

theorem CharsText.mono (h : ∀ c x, form c x → form' c x) :
    ∀ {s t : List Char}, CharsText form s t → CharsText form' s t
  | [], _, ht => ht
  | _ :: _, _, ⟨x, y, hx, hy, ht⟩ => ⟨x, y, h _ _ hx, CharsText.mono h hy, ht⟩

theorem StringText.mono (h : ∀ c x, form c x → form' c x) {s t : List Char} :
    StringText form s t → StringText form' s t :=
  fun ⟨x, hx, ht⟩ => ⟨x, hx.mono h, ht⟩

mutual

theorem Text.mono (h : ∀ c x, form c x → form' c x) :
    ∀ {v : JsonValue} {t : List Char}, Text form v t → Text form' v t
  | .null, _, ht => ht
  | .bool true, _, ht => ht
  | .bool false, _, ht => ht
  | .number _, _, ht => ht
  | .string _, _, ht => StringText.mono h ht
  | .array [], _, ht => ht
  | .array (_ :: _), _, ⟨x, y, hx, hy, ht⟩ => ⟨x, y, Text.mono h hx, ElementsText.mono h hy, ht⟩
  | .object [], _, ht => ht
  | .object ((_, _) :: _), _, ⟨x, y, z, hx, hy, hz, ht⟩ =>
    ⟨x, y, z, hx.mono h, Text.mono h hy, MembersText.mono h hz, ht⟩

theorem ElementsText.mono (h : ∀ c x, form c x → form' c x) :
    ∀ {l : List JsonValue} {t : List Char}, ElementsText form l t → ElementsText form' l t
  | [], _, ht => ht
  | _ :: _, _, ⟨x, y, hx, hy, ht⟩ => ⟨x, y, Text.mono h hx, ElementsText.mono h hy, ht⟩

theorem MembersText.mono (h : ∀ c x, form c x → form' c x) :
    ∀ {m : List (List Char × JsonValue)} {t : List Char},
      MembersText form m t → MembersText form' m t
  | [], _, ht => ht
  | (_, _) :: _, _, ⟨x, y, z, hx, hy, hz, ht⟩ =>
    ⟨x, y, z, hx.mono h, Text.mono h hy, MembersText.mono h hz, ht⟩

end

end Mono

theorem hexDigitValue_hexDigit : ∀ n < 16, hexDigitValue (hexDigit n) = some n := by decide

theorem hexValue_hexDigit {n : ℕ} (h : n < 256) :
    hexValue '0' '0' (hexDigit (n / 16)) (hexDigit (n % 16)) = some n := by
  have hzero : hexDigitValue '0' = some 0 := by decide
  unfold hexValue
  rw [hzero, hexDigitValue_hexDigit (n / 16) (by omega), hexDigitValue_hexDigit (n % 16) (by omega)]
  refine congrArg some ?_
  omega

theorem RfcForm.dump {c : Char} {x : List Char} (h : RfcForm c x) : DumpForm c x := by
  unfold RfcForm at h
  subst h
  unfold rfcForm
  split_ifs with h₁ h₂ h₃ h₄ h₅ h₆ h₇ h₈
  · exact h₁ ▸ DumpForm.quote
  · exact h₂ ▸ DumpForm.backslash
  · exact h₃ ▸ DumpForm.short 'b' '\x08' (by decide) (by decide)
  · exact h₄ ▸ DumpForm.short 't' '\t' (by decide) (by decide)
  · exact h₅ ▸ DumpForm.short 'n' '\n' (by decide) (by decide)
  · exact h₆ ▸ DumpForm.short 'f' '\x0c' (by decide) (by decide)
  · exact h₇ ▸ DumpForm.short 'r' '\r' (by decide) (by decide)
  · have hlt : c.toNat < 0x20 := of_decide_eq_true h₈
    exact DumpForm.hex _ _ _ _ c h₈ (hexValue_hexDigit (by omega))
  · refine DumpForm.plain c ?_
    unfold isPlain
    simp only [Bool.not_eq_true] at h₈
    simp only [h₈, Bool.not_false, Bool.true_and, Bool.and_eq_true, bne_iff_ne]
    exact ⟨h₁, h₂⟩

theorem DumpForm.json {c : Char} {x : List Char} (h : DumpForm c x) : JsonForm c x := by
  cases h with
  | plain c hc => exact JsonForm.plain c hc
  | quote => exact JsonForm.short '"' '"' (by decide)
  | backslash => exact JsonForm.short '\\' '\\' (by decide)
  | short e c _ he => exact JsonForm.short e c he
  | hex d₃ d₂ d₁ d₀ c _ hd => exact JsonForm.hex d₃ d₂ d₁ d₀ c hd

/-! ## A text is read in one way -/

theorem isPlain_ne_backslash {c : Char} (h : isPlain c = true) : c ≠ '\\' := by
  rintro rfl
  exact absurd h (by decide)

theorem isPlain_ne_quote {c : Char} (h : isPlain c = true) : c ≠ '"' := by
  rintro rfl
  exact absurd h (by decide)

theorem toNat_ne_surrogate (c : Char) {x : ℕ} (hx : x < 0x400) : c.toNat ≠ 0xD800 + x := by
  intro h
  have hvalid : c.toNat < 0xd800 ∨ 0xdfff < c.toNat ∧ c.toNat < 0x110000 := c.valid
  omega

/-- The character that starts with a low surrogate after a high one. -/
def readLow (x : ℕ) : List Char → Option (Char × List Char)
  | '\\' :: 'u' :: e₃ :: e₂ :: e₁ :: e₀ :: r =>
    (hexValue e₃ e₂ e₁ e₀).map fun n => (Char.ofNat (0x10000 + x * 0x400 + (n - 0xDC00)), r)
  | _ => none

/-- The first character of a string, from the rest of a text, and what follows it. -/
def readForm : List Char → Option (Char × List Char)
  | '\\' :: 'u' :: d₃ :: d₂ :: d₁ :: d₀ :: r =>
    (hexValue d₃ d₂ d₁ d₀).bind fun n =>
      if 0xD800 ≤ n ∧ n < 0xDC00 then readLow (n - 0xD800) r else some (Char.ofNat n, r)
  | '\\' :: e :: r => (shortEscape e).map fun c => (c, r)
  | c :: r => some (c, r)
  | [] => none

theorem readForm_eq {c : Char} {x : List Char} (h : JsonForm c x) (r : List Char) :
    readForm (x ++ r) = some (c, r) := by
  cases h with
  | plain c hc =>
    rw [List.singleton_append, readForm]
    · exact fun _ _ _ _ _ h => absurd h (isPlain_ne_backslash hc)
    · exact fun _ _ h => absurd h (isPlain_ne_backslash hc)
  | short e c he =>
    have hnone : shortEscape 'u' = none := by decide
    have hu : e ≠ 'u' := by
      rintro rfl
      rw [hnone] at he
      cases he
    change readForm ('\\' :: e :: r) = _
    rw [readForm, he]
    · rfl
    · exact fun _ _ _ _ _ h => absurd h hu
  | hex d₃ d₂ d₁ d₀ c hd =>
    change readForm ('\\' :: 'u' :: d₃ :: d₂ :: d₁ :: d₀ :: r) = _
    rw [readForm, hd, Option.bind_some, if_neg, Char.ofNat_toNat]
    rintro ⟨hle, hlt⟩
    exact toNat_ne_surrogate c (x := c.toNat - 0xD800) (by omega) (by omega)
  | pair d₃ d₂ d₁ d₀ e₃ e₂ e₁ e₀ c x y hx hy hlt hlt' hc =>
    change readForm ('\\' :: 'u' :: d₃ :: d₂ :: d₁ :: d₀ :: '\\' :: 'u' :: e₃ :: e₂ :: e₁ :: e₀ ::
      r) = _
    rw [readForm, hx, Option.bind_some, if_pos (by omega), readLow, hy, Option.map_some,
      Nat.add_sub_cancel_left, Nat.add_sub_cancel_left, ← hc, Char.ofNat_toNat]

/-- No form of a character continues a form of another one. -/
theorem JsonForm.unique {c c' : Char} {x x' r r' : List Char} (h : JsonForm c x)
    (h' : JsonForm c' x') (heq : x ++ r = x' ++ r') : c = c' ∧ r = r' := by
  have hread := readForm_eq h r
  rw [heq, readForm_eq h' r'] at hread
  exact ⟨(congrArg Prod.fst (Option.some.inj hread)).symm,
    (congrArg Prod.snd (Option.some.inj hread)).symm⟩

theorem JsonForm.ne_quote {c : Char} {x r r' : List Char} (h : JsonForm c x) :
    x ++ r ≠ '"' :: r' := by
  intro heq
  cases h with
  | plain c hc => exact isPlain_ne_quote hc (List.cons.inj heq).1
  | short e c _ => exact absurd (List.cons.inj heq).1 (by decide)
  | hex d₃ d₂ d₁ d₀ c _ => exact absurd (List.cons.inj heq).1 (by decide)
  | pair => exact absurd (List.cons.inj heq).1 (by decide)

theorem charsText_unique {s s' x x' r r' : List Char} (h : CharsText JsonForm s x)
    (h' : CharsText JsonForm s' x') (heq : x ++ '"' :: r = x' ++ '"' :: r') : s = s' ∧ r = r' := by
  induction s generalizing s' x x' with
  | nil =>
    cases h
    cases s' with
    | nil =>
      cases h'
      exact ⟨rfl, (List.cons.inj heq).2⟩
    | cons c' s' =>
      obtain ⟨a, b, ha, -, rfl⟩ := h'
      rw [List.append_assoc] at heq
      exact absurd heq.symm ha.ne_quote
  | cons c s ih =>
    obtain ⟨a, b, ha, hb, rfl⟩ := h
    rw [List.append_assoc] at heq
    cases s' with
    | nil =>
      cases h'
      exact absurd heq ha.ne_quote
    | cons c' s' =>
      obtain ⟨a', b', ha', hb', rfl⟩ := h'
      rw [List.append_assoc] at heq
      obtain ⟨rfl, hrest⟩ := ha.unique ha' heq
      obtain ⟨rfl, hr⟩ := ih hb hb' hrest
      exact ⟨rfl, hr⟩

theorem stringText_unique {s s' t t' r r' : List Char} (h : StringText JsonForm s t)
    (h' : StringText JsonForm s' t') (heq : t ++ r = t' ++ r') : s = s' ∧ r = r' := by
  obtain ⟨x, hx, rfl⟩ := h
  obtain ⟨x', hx', rfl⟩ := h'
  have htail : x ++ ['"'] ++ r = x' ++ ['"'] ++ r' := (List.cons.inj heq).2
  rw [List.append_assoc, List.append_assoc] at htail
  exact charsText_unique hx hx' htail

/-- What a text starts with. -/
inductive TextKind
  | null
  | true
  | false
  | number
  | string
  | array
  | object
deriving DecidableEq

/-- The kind of a value. -/
def JsonValue.kind : JsonValue → TextKind
  | .null => .null
  | .bool b => if b then .true else .false
  | .number _ => .number
  | .string _ => .string
  | .array _ => .array
  | .object _ => .object

/-- The kind of value that starts with a character. -/
def kindOf (c : Char) : Option TextKind :=
  if isNumeralChar c then some .number
  else if c = 'n' then some .null
  else if c = 't' then some .true
  else if c = 'f' then some .false
  else if c = '"' then some .string
  else if c = '[' then some .array
  else if c = '{' then some .object
  else none

theorem text_head {form : Char → List Char → Prop} {v : JsonValue} {t : List Char}
    (h : Text form v t) : ∃ c s, t = c :: s ∧ kindOf c = some v.kind := by
  rcases v with _ | (_ | _) | n | s | (_ | ⟨j, l⟩) | (_ | ⟨⟨k, j⟩, m⟩)
  · exact ⟨_, _, h, rfl⟩
  · exact ⟨_, _, h, rfl⟩
  · exact ⟨_, _, h, rfl⟩
  · obtain ⟨c, s, hs⟩ := List.exists_cons_of_ne_nil n.ne_nil
    have hc : isNumeralChar c = true := n.form c (by rw [hs]; exact List.mem_cons_self)
    exact ⟨c, s, Eq.trans h hs, if_pos hc⟩
  · obtain ⟨x, -, rfl⟩ := h
    exact ⟨_, _, rfl, rfl⟩
  · exact ⟨_, _, h, rfl⟩
  · obtain ⟨x, y, -, -, rfl⟩ := h
    exact ⟨_, _, rfl, rfl⟩
  · exact ⟨_, _, h, rfl⟩
  · obtain ⟨x, y, z, -, -, -, rfl⟩ := h
    exact ⟨_, _, rfl, rfl⟩

/-- What follows a text does not continue a number. -/
def Stops (r : List Char) : Prop := ∀ c s, r = c :: s → isNumeralChar c = false

theorem stops_cons {c : Char} (h : isNumeralChar c = false) (r : List Char) : Stops (c :: r) :=
  fun _ _ heq => (List.cons.inj heq).1 ▸ h

theorem stops_nil : Stops [] := nofun

section Unique

variable {v v' : JsonValue} {t t' r r' : List Char}

theorem kind_unique (h : Text JsonForm v t) (h' : Text JsonForm v' t')
    (heq : t ++ r = t' ++ r') : v.kind = v'.kind := by
  obtain ⟨c, s, rfl, hk⟩ := text_head h
  obtain ⟨c', s', rfl, hk'⟩ := text_head h'
  obtain ⟨rfl, -⟩ := List.cons.inj heq
  exact Option.some.inj (hk.symm.trans hk')

/-- A character that no value starts with. -/
theorem text_ne_cons (h : Text JsonForm v t) {c : Char} (hc : kindOf c = none) :
    t ++ r ≠ c :: r' := by
  intro heq
  obtain ⟨d, s, rfl, hk⟩ := text_head h
  obtain ⟨rfl, -⟩ := List.cons.inj heq
  rw [hc] at hk
  cases hk

theorem takeWhile_numeral (n : Numeral) (hr : Stops r) :
    (n.text ++ r).takeWhile isNumeralChar = n.text := by
  rw [List.takeWhile_append_of_pos n.form]
  cases r with
  | nil => exact List.append_nil _
  | cons c s =>
    rw [List.takeWhile_cons_of_neg, List.append_nil]
    exact Bool.eq_false_iff.mp (hr c s rfl)

theorem numeral_unique {n n' : Numeral} (heq : n.text ++ r = n'.text ++ r') (hr : Stops r)
    (hr' : Stops r') : n = n' ∧ r = r' := by
  have htext : n.text = n'.text := by
    rw [← takeWhile_numeral n hr, heq, takeWhile_numeral n' hr']
  refine ⟨?_, ?_⟩
  · cases n
    cases n'
    cases htext
    rfl
  · rw [htext] at heq
    exact List.append_cancel_left heq

theorem elementsText_stops {l : List JsonValue} (h : ElementsText JsonForm l t) (r : List Char) :
    Stops (t ++ r) := by
  cases l with
  | nil =>
    cases h
    exact stops_cons (by decide) _
  | cons j l =>
    obtain ⟨x, y, -, -, rfl⟩ := h
    exact stops_cons (by decide) _

theorem membersText_stops {m : List (List Char × JsonValue)} (h : MembersText JsonForm m t)
    (r : List Char) : Stops (t ++ r) := by
  rcases m with _ | ⟨⟨k, j⟩, m⟩
  · cases h
    exact stops_cons (by decide) _
  · obtain ⟨x, y, z, -, -, -, rfl⟩ := h
    exact stops_cons (by decide) _

theorem text_of_null (h : Text JsonForm .null t) (h' : Text JsonForm v' t')
    (heq : t ++ r = t' ++ r') : v' = .null := by
  have hk := kind_unique h h' heq
  rcases v' with _ | (_ | _) | _ | _ | _ | _
  · rfl
  all_goals exact TextKind.noConfusion hk

theorem text_of_bool {b : Bool} (h : Text JsonForm (.bool b) t) (h' : Text JsonForm v' t')
    (heq : t ++ r = t' ++ r') : v' = .bool b := by
  have hk := kind_unique h h' heq
  rcases v' with _ | (_ | _) | _ | _ | _ | _ <;> cases b
  all_goals first | rfl | exact TextKind.noConfusion hk

theorem text_of_number {n : Numeral} (h : Text JsonForm (.number n) t)
    (h' : Text JsonForm v' t') (heq : t ++ r = t' ++ r') : ∃ n', v' = .number n' := by
  have hk := kind_unique h h' heq
  rcases v' with _ | (_ | _) | n' | _ | _ | _
  case number => exact ⟨n', rfl⟩
  all_goals exact TextKind.noConfusion hk

theorem text_of_string {s : List Char} (h : Text JsonForm (.string s) t)
    (h' : Text JsonForm v' t') (heq : t ++ r = t' ++ r') : ∃ s', v' = .string s' := by
  have hk := kind_unique h h' heq
  rcases v' with _ | (_ | _) | _ | s' | _ | _
  case string => exact ⟨s', rfl⟩
  all_goals exact TextKind.noConfusion hk

theorem text_of_array {l : List JsonValue} (h : Text JsonForm (.array l) t)
    (h' : Text JsonForm v' t') (heq : t ++ r = t' ++ r') : ∃ l', v' = .array l' := by
  have hk := kind_unique h h' heq
  rcases v' with _ | (_ | _) | _ | _ | l' | _
  case array => exact ⟨l', rfl⟩
  all_goals exact TextKind.noConfusion hk

theorem text_of_object {m : List (List Char × JsonValue)} (h : Text JsonForm (.object m) t)
    (h' : Text JsonForm v' t') (heq : t ++ r = t' ++ r') : ∃ m', v' = .object m' := by
  have hk := kind_unique h h' heq
  rcases v' with _ | (_ | _) | _ | _ | _ | m'
  case object => exact ⟨m', rfl⟩
  all_goals exact TextKind.noConfusion hk

end Unique

mutual

/-- **The text of a value is read in one way**: no text of a value continues one of another. -/
theorem text_unique : ∀ {v v' : JsonValue} {t t' r r' : List Char}, Text JsonForm v t →
    Text JsonForm v' t' → Stops r → Stops r' → t ++ r = t' ++ r' → v = v' ∧ r = r'
  | .null, v', t, t', r, r', h, h', _, _, heq => by
    obtain rfl := text_of_null h h' heq
    rw [show t = t' from Eq.trans h (Eq.symm h')] at heq
    exact ⟨rfl, List.append_cancel_left heq⟩
  | .bool b, v', t, t', r, r', h, h', _, _, heq => by
    obtain rfl := text_of_bool h h' heq
    have ht : t = t' := by
      cases b
      · exact Eq.trans h (Eq.symm h')
      · exact Eq.trans h (Eq.symm h')
    rw [ht] at heq
    exact ⟨rfl, List.append_cancel_left heq⟩
  | .number n, v', t, t', r, r', h, h', hr, hr', heq => by
    obtain ⟨n', rfl⟩ := text_of_number h h' heq
    cases h
    cases h'
    obtain ⟨rfl, hrest⟩ := numeral_unique heq hr hr'
    exact ⟨rfl, hrest⟩
  | .string s, v', t, t', r, r', h, h', _, _, heq => by
    obtain ⟨s', rfl⟩ := text_of_string h h' heq
    obtain ⟨rfl, hrest⟩ := stringText_unique h h' heq
    exact ⟨rfl, hrest⟩
  | .array [], v', t, t', r, r', h, h', _, _, heq => by
    obtain ⟨l', rfl⟩ := text_of_array h h' heq
    cases h
    cases l' with
    | nil =>
      cases h'
      exact ⟨rfl, List.append_cancel_left heq⟩
    | cons j' l' =>
      obtain ⟨x', y', hx', -, rfl⟩ := h'
      have hclose : ']' :: r = x' ++ (y' ++ r') := by
        rw [← List.append_assoc]
        exact (List.cons.inj heq).2
      exact absurd hclose.symm (text_ne_cons hx' (by decide))
  | .array (j :: l), v', t, t', r, r', h, h', hr, hr', heq => by
    obtain ⟨l', rfl⟩ := text_of_array h h' heq
    obtain ⟨x, y, hx, hy, rfl⟩ := h
    cases l' with
    | nil =>
      cases h'
      have hclose : x ++ (y ++ r) = ']' :: r' := by
        rw [← List.append_assoc]
        exact (List.cons.inj heq).2
      exact absurd hclose (text_ne_cons hx (by decide))
    | cons j' l' =>
      obtain ⟨x', y', hx', hy', rfl⟩ := h'
      -- The elements are those that would follow a comma.
      have helements : ',' :: (x ++ y) ++ r = ',' :: (x' ++ y') ++ r' :=
        congrArg (',' :: ·) (List.cons.inj heq).2
      have he : ElementsText JsonForm (j :: l) (',' :: (x ++ y)) := ⟨x, y, hx, hy, rfl⟩
      have he' : ElementsText JsonForm (j' :: l') (',' :: (x' ++ y')) := ⟨x', y', hx', hy', rfl⟩
      obtain ⟨hl, hrest⟩ := elementsText_unique he he' helements
      exact ⟨congrArg _ hl, hrest⟩
  | .object [], v', t, t', r, r', h, h', _, _, heq => by
    obtain ⟨m', rfl⟩ := text_of_object h h' heq
    cases h
    rcases m' with _ | ⟨⟨k', j'⟩, m'⟩
    · cases h'
      exact ⟨rfl, List.append_cancel_left heq⟩
    · obtain ⟨x', y', z', ⟨w', -, rfl⟩, -, -, rfl⟩ := h'
      exact absurd (List.cons.inj (List.cons.inj heq).2).1 (by decide)
  | .object ((k, j) :: m), v', t, t', r, r', h, h', _, _, heq => by
    obtain ⟨m', rfl⟩ := text_of_object h h' heq
    obtain ⟨x, y, z, hx, hy, hz, rfl⟩ := h
    rcases m' with _ | ⟨⟨k', j'⟩, m'⟩
    · cases h'
      obtain ⟨w, -, rfl⟩ := hx
      exact absurd (List.cons.inj (List.cons.inj heq).2).1 (by decide)
    · obtain ⟨x', y', z', hx', hy', hz', rfl⟩ := h'
      have hmembers : ',' :: (x ++ ':' :: (y ++ z)) ++ r =
          ',' :: (x' ++ ':' :: (y' ++ z')) ++ r' := congrArg (',' :: ·) (List.cons.inj heq).2
      have hm : MembersText JsonForm ((k, j) :: m) (',' :: (x ++ ':' :: (y ++ z))) :=
        ⟨x, y, z, hx, hy, hz, rfl⟩
      have hm' : MembersText JsonForm ((k', j') :: m') (',' :: (x' ++ ':' :: (y' ++ z'))) :=
        ⟨x', y', z', hx', hy', hz', rfl⟩
      obtain ⟨hlist, hrest⟩ := membersText_unique hm hm' hmembers
      exact ⟨congrArg _ hlist, hrest⟩

theorem elementsText_unique : ∀ {l l' : List JsonValue} {t t' r r' : List Char},
    ElementsText JsonForm l t → ElementsText JsonForm l' t' → t ++ r = t' ++ r' → l = l' ∧ r = r'
  | [], [], _, _, _, _, h, h', heq => by
    cases h
    cases h'
    exact ⟨rfl, List.append_cancel_left heq⟩
  | [], j' :: l', _, _, _, _, h, h', heq => by
    cases h
    obtain ⟨x', y', -, -, rfl⟩ := h'
    exact absurd (List.cons.inj heq).1 (by decide)
  | j :: l, [], _, _, _, _, h, h', heq => by
    cases h'
    obtain ⟨x, y, -, -, rfl⟩ := h
    exact absurd (List.cons.inj heq).1 (by decide)
  | j :: l, j' :: l', _, _, r, r', h, h', heq => by
    obtain ⟨x, y, hx, hy, rfl⟩ := h
    obtain ⟨x', y', hx', hy', rfl⟩ := h'
    have htail : x ++ (y ++ r) = x' ++ (y' ++ r') := by
      rw [← List.append_assoc, ← List.append_assoc]
      exact (List.cons.inj heq).2
    obtain ⟨rfl, hrest⟩ :=
      text_unique hx hx' (elementsText_stops hy r) (elementsText_stops hy' r') htail
    obtain ⟨rfl, hr⟩ := elementsText_unique hy hy' hrest
    exact ⟨rfl, hr⟩

theorem membersText_unique : ∀ {m m' : List (List Char × JsonValue)} {t t' r r' : List Char},
    MembersText JsonForm m t → MembersText JsonForm m' t' → t ++ r = t' ++ r' → m = m' ∧ r = r'
  | [], [], _, _, _, _, h, h', heq => by
    cases h
    cases h'
    exact ⟨rfl, List.append_cancel_left heq⟩
  | [], (k', j') :: m', _, _, _, _, h, h', heq => by
    cases h
    obtain ⟨x', y', z', -, -, -, rfl⟩ := h'
    exact absurd (List.cons.inj heq).1 (by decide)
  | (k, j) :: m, [], _, _, _, _, h, h', heq => by
    cases h'
    obtain ⟨x, y, z, -, -, -, rfl⟩ := h
    exact absurd (List.cons.inj heq).1 (by decide)
  | (k, j) :: m, (k', j') :: m', _, _, r, r', h, h', heq => by
    obtain ⟨x, y, z, hx, hy, hz, rfl⟩ := h
    obtain ⟨x', y', z', hx', hy', hz', rfl⟩ := h'
    have htail : x ++ ':' :: (y ++ (z ++ r)) = x' ++ ':' :: (y' ++ (z' ++ r')) := by
      have h := (List.cons.inj heq).2
      simpa only [List.append_eq, List.append_assoc, List.cons_append] using h
    obtain ⟨rfl, hcolon⟩ := stringText_unique hx hx' htail
    obtain ⟨rfl, hrest⟩ := text_unique hy hy' (membersText_stops hz r) (membersText_stops hz' r')
      (List.cons.inj hcolon).2
    obtain ⟨rfl, hr⟩ := membersText_unique hz hz' hrest
    exact ⟨rfl, hr⟩

end

end TalerExchange
