import TalerExchange.Amount.Text
import TalerExchange.Json.Text

/-!
# The canonical encoding of JSON

`TALER_rfc8785encode` goes over the dump of a JSON value and writes the control characters the way
of RFC 8785.

* `Unistr`: the two functions of libunistring; `lowdump`, `scanHex`, `rfc8785encode`: the scanner;
* `utf8_injective`: different texts have different bytes;
* `Scans`: a piece of a text that the scanner rewrites by itself; `Scans.append`;
* `DumpForm.scans`: the forms of a character are such pieces; `Text.scans`: so is the text;
* **`rfc8785encode_dump`**: the encoding of a dump is the text by RFC 8785.
-/

namespace TalerExchange

/-! ## The scanner -/

/-- `u8_mblen` on a string with its terminator, and `u32_to_u8` on one character: what it writes. -/
structure Unistr where
  mblen : List UInt8 → ℤ
  u32ToU8 : ℕ → List UInt8
  mblen_nul : ∀ rest, mblen (0 :: rest) = 0
  mblen_char : ∀ (c : Char) (rest : List UInt8), c ≠ '\x00' →
    mblen (String.utf8EncodeChar c ++ rest) = (String.utf8EncodeChar c).length
  u32ToU8_char : ∀ c : Char, u32ToU8 c.toNat = String.utf8EncodeChar c

/-- The bytes of a text. -/
def utf8 (t : List Char) : List UInt8 := t.flatMap String.utf8EncodeChar

/-- A character of one byte. -/
def byteOf (c : Char) : UInt8 := UInt8.ofNat c.toNat

/-- `lowdump`. -/
def lowdump (val : UInt8) : List UInt8 :=
  if val = 0x8 then [byteOf '\\', byteOf 'b']
  else if val = 0x9 then [byteOf '\\', byteOf 't']
  else if val = 0xA then [byteOf '\\', byteOf 'n']
  else if val = 0xC then [byteOf '\\', byteOf 'f']
  else if val = 0xD then [byteOf '\\', byteOf 'r']
  else [byteOf '\\', byteOf 'u', byteOf '0', byteOf '0', byteOf (hexDigit (val.toNat / 16)),
    byteOf (hexDigit (val.toNat % 16))]

/-- The sign of a number that is scanned, whether it is negative, and what follows. -/
def hexSign (field : List Char) : Bool × List Char :=
  if field.head? = some '-' then (true, field.tail)
  else if field.head? = some '+' then (false, field.tail)
  else (false, field)

/-- What follows `0x`. -/
def hexBase (body : List Char) : List Char :=
  if body.take 2 = ['0', 'x'] ∨ body.take 2 = ['0', 'X'] then body.drop 2 else body

/-- `sscanf (s, "%4x", &num)`: blanks are skipped; of the next four characters, a sign, `0x`, and
then digits are read. -/
def scanHex (s : List UInt8) : Option ℕ :=
  let field := ((s.map fun b => Char.ofNat b.toNat).dropWhile RawAmount.isSpace).take 4
  let values := ((hexBase (hexSign field).2).map hexDigitValue).takeWhile Option.isSome
  let num := values.foldl (fun n x => n * 16 + x.getD 0) 0
  if values = [] then none
  else some (if (hexSign field).1 then (2 ^ 32 - num) % 2 ^ 32 else num)

/-- The character of an escape that has been read. -/
def dumpChar : List UInt8 → List UInt8
  | [b] => if b ≤ 0x1F then lowdump b else [b]
  | res => res

/-- One round of the scanner: what is written, and how far it moves. -/
def encodeStep (u : Unistr) (pos : List UInt8) (mbl : ℕ) : Option (List UInt8 × ℕ) :=
  match pos with
  | [] => none
  | val :: pos' =>
    if mbl = 1 ∧ val ≤ 0x1F then some (lowdump val, mbl)
    else if mbl = 1 ∧ val = byteOf '\\' then
      if pos'.head? = some (byteOf 'u') then
        (scanHex pos'.tail).map fun num => (dumpChar (u.u32ToU8 num), 6)
      -- A second backslash, or any other character.
      else some (pos.take 2, 2)
    else some (pos.take mbl, mbl)

/-- The scanner; `none` if an assertion fails, the text is not one in UTF-8, or the scanner has not
come to its end after so many rounds. -/
def encodeLoop (u : Unistr) : ℕ → List UInt8 → Option (List UInt8)
  | 0, _ => none
  | rounds + 1, pos =>
    if u.mblen pos = 0 then some []
    else if u.mblen pos < 0 then none
    else
      (encodeStep u pos (u.mblen pos).toNat).bind fun w =>
        (encodeLoop u rounds (pos.drop w.2)).map (w.1 ++ ·)

/-- `TALER_rfc8785encode`. -/
def rfc8785encode (u : Unistr) (inp : List UInt8) : Option (List UInt8) :=
  encodeLoop u (inp.length + 1) (inp ++ [0])

/-! ## Bytes and characters -/

@[simp] theorem utf8_nil : utf8 [] = [] := rfl

theorem utf8_cons (c : Char) (t : List Char) : utf8 (c :: t) = String.utf8EncodeChar c ++ utf8 t :=
  rfl

theorem utf8_append (s t : List Char) : utf8 (s ++ t) = utf8 s ++ utf8 t := List.flatMap_append

/-- Different texts have different bytes. -/
theorem utf8_injective : Function.Injective utf8 := by
  intro s t h
  have henc : s.utf8Encode = t.utf8Encode := congrArg List.toByteArray h
  refine String.ofList_injective ?_
  rw [← String.toByteArray_inj]
  exact henc

theorem utf8EncodeChar_ascii {c : Char} (h : c.toNat < 128) :
    String.utf8EncodeChar c = [byteOf c] := by
  have hsize : c.utf8Size = 1 := Char.utf8Size_eq_one_iff.mpr (UInt32.le_iff_toNat_le.mpr (by
    have hval : c.val.toNat = c.toNat := rfl
    simp only [UInt32.reduceToNat]
    omega))
  rw [String.utf8EncodeChar_eq_singleton hsize]
  rfl

theorem lt_of_utf8Size {c : Char} (h : c.utf8Size = 1) : c.toNat < 128 :=
  Nat.lt_succ_of_le (UInt32.le_iff_toNat_le.mp (Char.utf8Size_eq_one_iff.mp h))

theorem toNat_byteOf {c : Char} (h : c.toNat < 128) : (byteOf c).toNat = c.toNat := by
  unfold byteOf
  rw [UInt8.toNat_ofNat']
  omega

theorem ofNat_toNat_byteOf {c : Char} (h : c.toNat < 128) : Char.ofNat (byteOf c).toNat = c := by
  rw [toNat_byteOf h, Char.ofNat_toNat]

theorem byteOf_inj {c d : Char} (hc : c.toNat < 128) (hd : d.toNat < 128) :
    byteOf c = byteOf d ↔ c = d := by
  refine ⟨fun h => ?_, fun h => congrArg byteOf h⟩
  rw [← ofNat_toNat_byteOf hc, h, ofNat_toNat_byteOf hd]

/-! ## One round -/

section Round

variable (u : Unistr)

/-- A round on a character that is not empty. -/
theorem encodeLoop_succ {c : Char} (hc : c ≠ '\x00') (rounds : ℕ) (rest : List UInt8) :
    encodeLoop u (rounds + 1) (String.utf8EncodeChar c ++ rest) =
      (encodeStep u (String.utf8EncodeChar c ++ rest) c.utf8Size).bind fun w =>
        (encodeLoop u rounds ((String.utf8EncodeChar c ++ rest).drop w.2)).map (w.1 ++ ·) := by
  have hlen := u.mblen_char c rest hc
  rw [String.length_utf8EncodeChar] at hlen
  have hpos := c.utf8Size_pos
  rw [encodeLoop, hlen, if_neg (by omega), if_neg (by omega), Int.toNat_natCast]

theorem encodeStep_plain {c : Char} (hc : isControl c = false) (hb : c ≠ '\\')
    (rest : List UInt8) : encodeStep u (String.utf8EncodeChar c ++ rest) c.utf8Size =
      some (String.utf8EncodeChar c, c.utf8Size) := by
  have htake : (String.utf8EncodeChar c ++ rest).take c.utf8Size = String.utf8EncodeChar c := by
    rw [← String.length_utf8EncodeChar, List.take_left]
  by_cases hone : c.utf8Size = 1
  · have hascii := lt_of_utf8Size hone
    have hlow : ¬byteOf c ≤ 0x1F := by
      rw [UInt8.le_iff_toNat_le, toNat_byteOf hascii]
      have hle : ¬c.toNat < 0x20 := of_decide_eq_false hc
      exact fun h => hle (Nat.lt_succ_of_le h)
    have hne : byteOf c ≠ byteOf '\\' := fun h => hb ((byteOf_inj hascii (by decide)).mp h)
    rw [utf8EncodeChar_ascii hascii] at htake ⊢
    rw [hone] at htake ⊢
    change (if 1 = 1 ∧ byteOf c ≤ 0x1F then _ else if 1 = 1 ∧ byteOf c = byteOf '\\' then _
      else some (([byteOf c] ++ rest).take 1, 1)) = _
    rw [if_neg fun h => hlow h.2, if_neg fun h => hne h.2, htake]
  · unfold encodeStep
    cases hbytes : String.utf8EncodeChar c ++ rest with
    | nil =>
      have hlen := congrArg List.length hbytes
      rw [List.length_append, String.length_utf8EncodeChar] at hlen
      have hpos := c.utf8Size_pos
      simp only [List.length_nil] at hlen
      omega
    | cons val pos' =>
      dsimp only
      rw [if_neg fun h => hone h.1, if_neg fun h => hone h.1, ← hbytes, htake]

/-- A character that is neither a control character nor a backslash is copied. -/
theorem encodeLoop_plain {c : Char} (hc : isControl c = false) (hb : c ≠ '\\') (rounds : ℕ)
    (rest : List UInt8) : encodeLoop u (rounds + 1) (String.utf8EncodeChar c ++ rest) =
      (encodeLoop u rounds rest).map (String.utf8EncodeChar c ++ ·) := by
  have hnul : c ≠ '\x00' := by
    rintro rfl
    exact absurd hc (by decide)
  rw [encodeLoop_succ u hnul, encodeStep_plain u hc hb]
  change (encodeLoop u rounds ((String.utf8EncodeChar c ++ rest).drop c.utf8Size)).map _ = _
  rw [← String.length_utf8EncodeChar, List.drop_left]

theorem encodeLoop_backslash (pos' : List UInt8) (rounds : ℕ) :
    encodeLoop u (rounds + 1) (byteOf '\\' :: pos') =
      (if pos'.head? = some (byteOf 'u') then
        (scanHex pos'.tail).map fun num => (dumpChar (u.u32ToU8 num), 6)
      else some ((byteOf '\\' :: pos').take 2, 2)).bind fun w =>
        (encodeLoop u rounds ((byteOf '\\' :: pos').drop w.2)).map (w.1 ++ ·) :=
  encodeLoop_succ u (c := '\\') (by decide) rounds pos'

/-- A backslash and a character other than `u` are copied. -/
theorem encodeLoop_short {b : UInt8} (hb : b ≠ byteOf 'u') (rounds : ℕ) (rest : List UInt8) :
    encodeLoop u (rounds + 1) (byteOf '\\' :: b :: rest) =
      (encodeLoop u rounds rest).map ([byteOf '\\', b] ++ ·) := by
  rw [encodeLoop_backslash, List.head?_cons, if_neg fun h => hb (Option.some.inj h)]
  rfl

theorem hexDigitValue_lt {c : Char} {x : ℕ} (h : hexDigitValue c = some x) : c.toNat < 128 := by
  unfold hexDigitValue at h
  split_ifs at h with h₁ h₂ h₃
  · exact lt_of_le_of_lt (UInt32.le_iff_toNat_le.mp h₁.2) (by decide)
  · exact lt_of_le_of_lt (UInt32.le_iff_toNat_le.mp h₂.2) (by decide)
  · exact lt_of_le_of_lt (UInt32.le_iff_toNat_le.mp h₃.2) (by decide)

theorem hexDigitValue_other : ∀ n < 128, (hexDigitValue (Char.ofNat n)).isSome = true →
    RawAmount.isSpace (Char.ofNat n) = false ∧ Char.ofNat n ∉ ['+', '-', 'x', 'X'] := by
  decide

/-- A hexadecimal digit is no blank, no sign, and no part of `0x` after the zero. -/
theorem hexDigitValue_ne {c : Char} {x : ℕ} (h : hexDigitValue c = some x) :
    RawAmount.isSpace c = false ∧ c ∉ ['+', '-', 'x', 'X'] := by
  have hc := hexDigitValue_other c.toNat (hexDigitValue_lt h)
  rw [Char.ofNat_toNat, h] at hc
  exact hc rfl

theorem hexValue_eq_some {d₃ d₂ d₁ d₀ : Char} {n : ℕ} (h : hexValue d₃ d₂ d₁ d₀ = some n) :
    ∃ x₃ x₂ x₁ x₀, hexDigitValue d₃ = some x₃ ∧ hexDigitValue d₂ = some x₂ ∧
      hexDigitValue d₁ = some x₁ ∧ hexDigitValue d₀ = some x₀ ∧
      n = ((x₃ * 16 + x₂) * 16 + x₁) * 16 + x₀ := by
  unfold hexValue at h
  split at h
  · rename_i x₃ x₂ x₁ x₀ h₃ h₂ h₁ h₀
    exact ⟨x₃, x₂, x₁, x₀, h₃, h₂, h₁, h₀, (Option.some.inj h).symm⟩
  · cases h

theorem scanHex_eq {d₃ d₂ d₁ d₀ : Char} {n : ℕ} (hn : hexValue d₃ d₂ d₁ d₀ = some n)
    (rest : List UInt8) :
    scanHex (byteOf d₃ :: byteOf d₂ :: byteOf d₁ :: byteOf d₀ :: rest) = some n := by
  obtain ⟨x₃, x₂, x₁, x₀, h₃, h₂, h₁, h₀, rfl⟩ := hexValue_eq_some hn
  obtain ⟨hspace, hsign⟩ := hexDigitValue_ne h₃
  have hbase := (hexDigitValue_ne h₂).2
  simp only [List.mem_cons, List.not_mem_nil, or_false, not_or] at hsign hbase
  have hsign' : hexSign [d₃, d₂, d₁, d₀] = (false, [d₃, d₂, d₁, d₀]) := by
    unfold hexSign
    rw [List.head?_cons, if_neg fun h => hsign.2.1 (Option.some.inj h),
      if_neg fun h => hsign.1 (Option.some.inj h)]
  have hbase' : hexBase [d₃, d₂, d₁, d₀] = [d₃, d₂, d₁, d₀] := by
    refine if_neg ?_
    rintro (h | h)
    · exact hbase.2.2.1 (List.cons.inj (List.cons.inj h).2).1
    · exact hbase.2.2.2 (List.cons.inj (List.cons.inj h).2).1
  unfold scanHex
  simp only [List.map_cons, ofNat_toNat_byteOf (hexDigitValue_lt h₃),
    ofNat_toNat_byteOf (hexDigitValue_lt h₂), ofNat_toNat_byteOf (hexDigitValue_lt h₁),
    ofNat_toNat_byteOf (hexDigitValue_lt h₀), List.dropWhile_cons, hspace, Bool.false_eq_true,
    if_false, List.take_succ_cons, List.take_zero, hsign', hbase', h₃, h₂, h₁, h₀, List.map_nil]
  have htake : [some x₃, some x₂, some x₁, some x₀].takeWhile Option.isSome =
    [some x₃, some x₂, some x₁, some x₀] := rfl
  rw [htake, if_neg (List.cons_ne_nil _ _)]
  simp only [List.foldl_cons, List.foldl_nil, Option.getD_some, Nat.zero_mul, Nat.zero_add]

/-- The four digits of an escape are replaced by the character. -/
theorem encodeLoop_hex {d₃ d₂ d₁ d₀ : Char} {n : ℕ} (hn : hexValue d₃ d₂ d₁ d₀ = some n)
    (rounds : ℕ) (rest : List UInt8) :
    encodeLoop u (rounds + 1) (byteOf '\\' :: byteOf 'u' :: byteOf d₃ :: byteOf d₂ :: byteOf d₁ ::
        byteOf d₀ :: rest) =
      (encodeLoop u rounds rest).map (dumpChar (u.u32ToU8 n) ++ ·) := by
  rw [encodeLoop_backslash, List.head?_cons, if_pos rfl, List.tail_cons, scanHex_eq hn]
  rfl

end Round

/-! ## Pieces of a text -/

section Scans

variable {u : Unistr}

/-- The scanner rewrites the first text to the second one, whatever follows. -/
def Scans (u : Unistr) (t o : List Char) : Prop :=
  ∃ n ≤ (utf8 t).length, ∀ rounds rest, encodeLoop u (rounds + n) (utf8 t ++ rest) =
    (encodeLoop u rounds rest).map (utf8 o ++ ·)

theorem Scans.append {t t' o o' : List Char} (h : Scans u t o) (h' : Scans u t' o') :
    Scans u (t ++ t') (o ++ o') := by
  obtain ⟨n, hn, hrun⟩ := h
  obtain ⟨n', hn', hrun'⟩ := h'
  refine ⟨n' + n, ?_, fun rounds rest => ?_⟩
  · rw [utf8_append, List.length_append]
    omega
  · rw [utf8_append, List.append_assoc, ← Nat.add_assoc, hrun, hrun', Option.map_map, utf8_append]
    refine congrArg (fun f => Option.map f _) ?_
    funext out
    exact (List.append_assoc _ _ _).symm

theorem Scans.nil : Scans u [] [] :=
  ⟨0, Nat.le_refl _, fun _ _ => Option.map_id'.symm⟩

theorem scans_plain {c : Char} (hc : isControl c = false) (hb : c ≠ '\\') : Scans u [c] [c] := by
  have hutf8 : utf8 [c] = String.utf8EncodeChar c := List.append_nil _
  refine ⟨1, ?_, fun rounds rest => ?_⟩
  · rw [hutf8, String.length_utf8EncodeChar]
    exact c.utf8Size_pos
  · rw [hutf8]
    exact encodeLoop_plain u hc hb rounds rest

theorem Scans.cons {c : Char} (hc : isControl c = false) (hb : c ≠ '\\') {t o : List Char}
    (h : Scans u t o) : Scans u (c :: t) (c :: o) := (scans_plain hc hb).append h

theorem isControl_of_isPlain {c : Char} (hc : isPlain c = true) : isControl c = false := by
  cases h : isControl c with
  | false => rfl
  | true =>
    unfold isPlain at hc
    rw [h] at hc
    cases hc

theorem rfcForm_plain {c : Char} (hc : isPlain c = true) : rfcForm c = [c] := by
  have hctl := isControl_of_isPlain hc
  have hne : ∀ d, isControl d = true → c ≠ d := by
    rintro d hd rfl
    rw [hd] at hctl
    cases hctl
  unfold rfcForm
  rw [if_neg (isPlain_ne_quote hc), if_neg (isPlain_ne_backslash hc), if_neg (hne _ (by decide)),
    if_neg (hne _ (by decide)), if_neg (hne _ (by decide)), if_neg (hne _ (by decide)),
    if_neg (hne _ (by decide)), hctl, if_neg Bool.false_ne_true]

theorem short_control {e c : Char} (hc : isControl c = true) (he : shortEscape e = some c) :
    rfcForm c = ['\\', e] ∧ e.toNat < 128 ∧ e ≠ 'u' := by
  unfold shortEscape at he
  split_ifs at he <;> cases he <;> subst_vars <;> first | exact absurd hc (by decide) | decide

theorem dumpChar_control : ∀ n < 32, dumpChar (String.utf8EncodeChar (Char.ofNat n)) =
    utf8 (rfcForm (Char.ofNat n)) := by
  decide

theorem utf8_ascii : ∀ {t : List Char}, (∀ c ∈ t, c.toNat < 128) → utf8 t = t.map byteOf
  | [], _ => rfl
  | c :: t, h => by
    rw [utf8_cons, utf8EncodeChar_ascii (h c List.mem_cons_self),
      utf8_ascii fun d hd => h d (List.mem_cons_of_mem _ hd)]
    rfl

/-- An escape of two characters is a piece of the text. -/
theorem scans_short {e : Char} (hascii : e.toNat < 128) (hu : e ≠ 'u') :
    Scans u ['\\', e] ['\\', e] := by
  have hutf8 : utf8 ['\\', e] = [byteOf '\\', byteOf e] := by
    refine utf8_ascii fun c hc => ?_
    simp only [List.mem_cons, List.not_mem_nil, or_false] at hc
    rcases hc with rfl | rfl
    · decide
    · exact hascii
  have hne : byteOf e ≠ byteOf 'u' := fun h => hu ((byteOf_inj hascii (by decide)).mp h)
  refine ⟨1, by rw [hutf8]; exact Nat.le_succ 1, fun rounds rest => ?_⟩
  rw [hutf8]
  exact encodeLoop_short u hne rounds rest

theorem scans_hex {d₃ d₂ d₁ d₀ c : Char} (hc : isControl c = true)
    (hd : hexValue d₃ d₂ d₁ d₀ = some c.toNat) :
    Scans u ['\\', 'u', d₃, d₂, d₁, d₀] (rfcForm c) := by
  obtain ⟨x₃, x₂, x₁, x₀, h₃, h₂, h₁, h₀, -⟩ := hexValue_eq_some hd
  have hutf8 : utf8 ['\\', 'u', d₃, d₂, d₁, d₀] =
      [byteOf '\\', byteOf 'u', byteOf d₃, byteOf d₂, byteOf d₁, byteOf d₀] := by
    refine utf8_ascii fun a ha => ?_
    simp only [List.mem_cons, List.not_mem_nil, or_false] at ha
    rcases ha with rfl | rfl | rfl | rfl | rfl | rfl
    · decide
    · decide
    · exact hexDigitValue_lt h₃
    · exact hexDigitValue_lt h₂
    · exact hexDigitValue_lt h₁
    · exact hexDigitValue_lt h₀
  have hdump : dumpChar (u.u32ToU8 c.toNat) = utf8 (rfcForm c) := by
    have h := dumpChar_control c.toNat (of_decide_eq_true hc)
    rwa [Char.ofNat_toNat, ← u.u32ToU8_char] at h
  refine ⟨1, by rw [hutf8]; exact Nat.le_add_left 1 5, fun rounds rest => ?_⟩
  rw [hutf8, ← hdump]
  exact encodeLoop_hex u hd rounds rest

/-- The form of a character in a dump is rewritten to the one of RFC 8785. -/
theorem DumpForm.scans {c : Char} {x : List Char} (h : DumpForm c x) :
    Scans u x (rfcForm c) := by
  cases h with
  | plain c hc =>
    rw [rfcForm_plain hc]
    exact scans_plain (isControl_of_isPlain hc) (isPlain_ne_backslash hc)
  | quote => exact scans_short (by decide) (by decide)
  | backslash => exact scans_short (by decide) (by decide)
  | short e c hc he =>
    obtain ⟨hform, hascii, hu⟩ := short_control hc he
    rw [hform]
    exact scans_short hascii hu
  | hex d₃ d₂ d₁ d₀ c hc hd => exact scans_hex hc hd

/-! ## The text of a value -/

theorem CharsText.scans : ∀ {s t : List Char}, CharsText DumpForm s t →
    Scans u t (s.flatMap rfcForm)
  | [], _, h => by
    cases h
    exact Scans.nil
  | c :: s, _, ⟨x, y, hx, hy, ht⟩ => by
    rw [ht, List.flatMap_cons]
    exact hx.scans.append (CharsText.scans hy)

theorem StringText.scans {s t : List Char} (h : StringText DumpForm s t) :
    Scans u t (rfcString s) := by
  obtain ⟨x, hx, rfl⟩ := h
  exact Scans.cons (by decide) (by decide) (hx.scans.append (scans_plain (by decide) (by decide)))

theorem isNumeralChar_control : ∀ n < 32, isNumeralChar (Char.ofNat n) = false := by decide

theorem isControl_of_isNumeralChar {c : Char} (h : isNumeralChar c = true) :
    isControl c = false ∧ c ≠ '\\' := by
  constructor
  · refine decide_eq_false fun hlt => ?_
    have hno := isNumeralChar_control c.toNat hlt
    rw [Char.ofNat_toNat, h] at hno
    cases hno
  · rintro rfl
    exact absurd h (by decide)

theorem scans_plain_list : ∀ {t : List Char}, (∀ c ∈ t, isControl c = false ∧ c ≠ '\\') →
    Scans u t t
  | [], _ => Scans.nil
  | c :: t, h => by
    obtain ⟨hc, hb⟩ := h c List.mem_cons_self
    exact Scans.cons hc hb (scans_plain_list fun d hd => h d (List.mem_cons_of_mem _ hd))

theorem scans_plain_all {t : List Char} (h : (t.all fun c => !isControl c && c != '\\') = true) :
    Scans u t t := by
  refine scans_plain_list fun c hc => ?_
  simpa using List.all_eq_true.mp h c hc

mutual

/-- The text of a value is rewritten to the one by RFC 8785. -/
theorem Text.scans : ∀ {v : JsonValue} {t : List Char}, Text DumpForm v t → Scans u t (rfcText v)
  | .null, t, h => by
    cases h
    exact scans_plain_all (by decide)
  | .bool true, t, h => by
    cases h
    exact scans_plain_all (by decide)
  | .bool false, t, h => by
    cases h
    exact scans_plain_all (by decide)
  | .number n, t, h => by
    cases h
    exact scans_plain_list fun c hc => isControl_of_isNumeralChar (n.form c hc)
  | .string s, t, h => StringText.scans h
  | .array [], t, h => by
    cases h
    exact scans_plain_all (by decide)
  | .array (j :: l), t, h => by
    obtain ⟨x, y, hx, hy, rfl⟩ := h
    exact Scans.cons (by decide) (by decide) (hx.scans.append hy.scans)
  | .object [], t, h => by
    cases h
    exact scans_plain_all (by decide)
  | .object ((k, j) :: m), t, h => by
    obtain ⟨x, y, z, hx, hy, hz, rfl⟩ := h
    exact Scans.cons (by decide) (by decide)
      (hx.scans.append (Scans.cons (by decide) (by decide) (hy.scans.append hz.scans)))

theorem ElementsText.scans : ∀ {l : List JsonValue} {t : List Char}, ElementsText DumpForm l t →
    Scans u t (rfcElements l)
  | [], t, h => by
    cases h
    exact scans_plain_all (by decide)
  | j :: l, t, h => by
    obtain ⟨x, y, hx, hy, rfl⟩ := h
    exact Scans.cons (by decide) (by decide) (hx.scans.append hy.scans)

theorem MembersText.scans : ∀ {m : List (List Char × JsonValue)} {t : List Char},
    MembersText DumpForm m t → Scans u t (rfcMembers m)
  | [], t, h => by
    cases h
    exact scans_plain_all (by decide)
  | (k, j) :: m, t, h => by
    obtain ⟨x, y, z, hx, hy, hz, rfl⟩ := h
    exact Scans.cons (by decide) (by decide)
      (hx.scans.append (Scans.cons (by decide) (by decide) (hy.scans.append hz.scans)))

end

/-- The encoding of the dump of a value is its text by RFC 8785. -/
theorem rfc8785encode_eq (u : Unistr) {v : JsonValue} {t : List Char} (h : Text DumpForm v t) :
    rfc8785encode u (utf8 t) = some (utf8 (rfcText v)) := by
  obtain ⟨n, hn, hrun⟩ := Text.scans (u := u) h
  have hrounds : (utf8 t).length + 1 = (utf8 t).length - n + 1 + n := by omega
  have hend : encodeLoop u ((utf8 t).length - n + 1) [0] = some [] := by
    rw [encodeLoop, u.mblen_nul, if_pos rfl]
  rw [rfc8785encode, hrounds, hrun, hend, Option.map_some, List.append_nil]

end Scans

/-- **The canonical encoding keeps the meaning.** The encoding of a dump of a value ends with a text
of the value, and of no other one, with the control characters in the forms of RFC 8785; encoded
again it stays as it is; and the encodings of dumps of different values differ. -/
theorem rfc8785encode_dump (u : Unistr) (v : JsonValue) (t : List Char) (h : Text DumpForm v t) :
    ∃ o, rfc8785encode u (utf8 t) = some (utf8 o) ∧ Text RfcForm v o ∧
      (∀ v', Text JsonForm v' o ↔ v' = v) ∧
      rfc8785encode u (utf8 o) = some (utf8 o) ∧
      ∀ v' t', Text DumpForm v' t' → v' ≠ v →
        rfc8785encode u (utf8 t') ≠ rfc8785encode u (utf8 t) := by
  have hdump : ∀ w, Text DumpForm w (rfcText w) := fun w =>
    (text_rfcText w).mono fun _ _ => RfcForm.dump
  have hjson : ∀ w, Text JsonForm w (rfcText w) := fun w =>
    (hdump w).mono fun _ _ => DumpForm.json
  have hunique : ∀ v', Text JsonForm v' (rfcText v) → v' = v := fun v' h' =>
    (text_unique h' (hjson v) stops_nil stops_nil rfl).1
  refine ⟨rfcText v, rfc8785encode_eq u h, text_rfcText v, fun v' => ⟨hunique v', ?_⟩,
    rfc8785encode_eq u (hdump v), fun v' t' h' hne heq => hne (hunique v' ?_)⟩
  · rintro rfl
    exact hjson v'
  · rw [rfc8785encode_eq u h', rfc8785encode_eq u h] at heq
    exact utf8_injective (Option.some.inj heq) ▸ hjson v'

/-- The functions of libunistring, by decoding the first character. -/
def decodingUnistr : Unistr where
  mblen s :=
    match s.toByteArray.utf8DecodeChar? 0 with
    | some c => if c = '\x00' then 0 else c.utf8Size
    | none => -1
  u32ToU8 n := String.utf8EncodeChar (Char.ofNat n)
  mblen_nul rest := by
    have h : (0 :: rest).toByteArray.utf8DecodeChar? 0 = some '\x00' := by
      rw [← ByteArray.utf8DecodeChar?_utf8EncodeChar_append (b := rest.toByteArray),
        ← List.toByteArray_append]
      rfl
    simp only [h, if_true]
  mblen_char c rest hc := by
    have h : (String.utf8EncodeChar c ++ rest).toByteArray.utf8DecodeChar? 0 = some c := by
      rw [List.toByteArray_append]
      exact ByteArray.utf8DecodeChar?_utf8EncodeChar_append
    simp only [h, if_neg hc, String.length_utf8EncodeChar]
  u32ToU8_char c := by rw [Char.ofNat_toNat]

/-- An object with a control character. -/
def sampleValue : JsonValue := .object [(['k'], .string ['\x1f'])]

theorem rfc8785encode_dump_sample : ∃ o, rfc8785encode decodingUnistr
    (utf8 "\x7b\"k\":\"\\u001F\"\x7d".toList) = some (utf8 o) ∧ Text RfcForm sampleValue o := by
  have hk : StringText DumpForm ['k'] ['"', 'k', '"'] :=
    ⟨['k'], ⟨['k'], [], DumpForm.plain 'k' (by decide), rfl, rfl⟩, rfl⟩
  have hs : StringText DumpForm ['\x1f'] "\"\\u001F\"".toList :=
    ⟨_, ⟨_, [], DumpForm.hex '0' '0' '1' 'F' '\x1f' (by decide) (by decide), rfl, rfl⟩, rfl⟩
  obtain ⟨o, hrun, hform, -⟩ := rfc8785encode_dump decodingUnistr sampleValue
    "\x7b\"k\":\"\\u001F\"\x7d".toList ⟨_, _, _, hk, hs, rfl, rfl⟩
  exact ⟨o, hrun, hform⟩

end TalerExchange
