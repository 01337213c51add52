import TalerExchange.Machine.CString
import Mathlib.Algebra.Group.Nat.Defs

/-!
# IBAN numbers

`TALER_iban_validate`: the length, the country, and the checksum, which is computed in chunks of sixteen
digits, from the second one on with a product in floating point.

* `roundDouble`: an integer in double precision;
* `countryTable`, `ibanDigits`, `ibanChecksum`, `ibanValidate`.
-/

namespace TalerExchange

/-- The country codes of `country_table`. -/
def countryTable : List (Char × Char) :=
  [('A', 'E'), ('A', 'F'), ('A', 'L'), ('A', 'M'), ('A', 'N'), ('A', 'R'), ('A', 'T'),
   ('A', 'U'), ('A', 'Z'), ('B', 'A'), ('B', 'D'), ('B', 'E'), ('B', 'G'), ('B', 'H'),
   ('B', 'N'), ('B', 'O'), ('B', 'R'), ('B', 'T'), ('B', 'Y'), ('B', 'Z'), ('C', 'A'),
   ('C', 'G'), ('C', 'H'), ('C', 'I'), ('C', 'L'), ('C', 'M'), ('C', 'N'), ('C', 'O'),
   ('C', 'R'), ('C', 'S'), ('C', 'Z'), ('D', 'E'), ('D', 'K'), ('D', 'O'), ('D', 'Z'),
   ('E', 'C'), ('E', 'E'), ('E', 'G'), ('E', 'R'), ('E', 'S'), ('E', 'T'), ('F', 'I'),
   ('F', 'O'), ('F', 'R'), ('G', 'B'), ('G', 'D'), ('G', 'E'), ('G', 'L'), ('G', 'R'),
   ('G', 'T'), ('H', 'K'), ('H', 'K'), ('H', 'N'), ('H', 'R'), ('H', 'T'), ('H', 'U'),
   ('I', 'D'), ('I', 'E'), ('I', 'L'), ('I', 'N'), ('I', 'Q'), ('I', 'R'), ('I', 'S'),
   ('I', 'T'), ('J', 'M'), ('J', 'O'), ('J', 'P'), ('K', 'E'), ('K', 'G'), ('K', 'H'),
   ('K', 'R'), ('K', 'W'), ('K', 'Z'), ('L', 'A'), ('L', 'B'), ('L', 'I'), ('L', 'K'),
   ('L', 'T'), ('L', 'U'), ('L', 'V'), ('L', 'Y'), ('M', 'A'), ('M', 'C'), ('M', 'D'),
   ('M', 'D'), ('M', 'E'), ('M', 'K'), ('M', 'L'), ('M', 'M'), ('M', 'N'), ('M', 'O'),
   ('M', 'T'), ('M', 'V'), ('M', 'X'), ('M', 'Y'), ('N', 'G'), ('N', 'I'), ('N', 'L'),
   ('N', 'O'), ('N', 'P'), ('N', 'Z'), ('O', 'M'), ('P', 'A'), ('P', 'E'), ('P', 'H'),
   ('P', 'K'), ('P', 'L'), ('P', 'R'), ('P', 'T'), ('P', 'Y'), ('Q', 'A'), ('R', 'E'),
   ('R', 'O'), ('R', 'S'), ('R', 'U'), ('R', 'W'), ('S', 'A'), ('S', 'E'), ('S', 'G'),
   ('S', 'I'), ('S', 'K'), ('S', 'N'), ('S', 'O'), ('S', 'R'), ('S', 'V'), ('S', 'Y'),
   ('T', 'H'), ('T', 'J'), ('T', 'M'), ('T', 'N'), ('T', 'R'), ('T', 'T'), ('T', 'W'),
   ('T', 'Z'), ('U', 'A'), ('U', 'S'), ('U', 'Y'), ('V', 'A'), ('V', 'E'), ('V', 'N'),
   ('Y', 'E'), ('Z', 'A'), ('Z', 'W')]

/-- An integer as a `double`: 53 significant bits, ties to even. -/
def roundDouble (n : ℕ) : ℕ :=
  let ulp := 2 ^ (n.log2 + 1 - 53)
  if 2 * (n % ulp) < ulp ∨ (2 * (n % ulp) = ulp ∧ n / ulp % 2 = 0) then n / ulp * ulp
  else (n / ulp + 1) * ulp

/-- `isalpha`. -/
def isAlpha (c : Char) : Bool := ('a' ≤ c && c ≤ 'z') || ('A' ≤ c && c ≤ 'Z')

/-- The digits of the checksum: letters are numbers of two digits. -/
def ibanDigits : List Char → Option (List Char)
  | [] => some []
  | c :: cs =>
    if isAlpha c then
      let num := Nat.toDigits 10 (c.toNat + 10 - 'A'.toNat)
      if num.length ≠ 2 then none else (ibanDigits cs).map (num ++ ·)
    else (ibanDigits cs).map (c :: ·)

/-- The remainder modulo 97, with at most `n` chunks. -/
def ibanChecksum : ℕ → ℕ → List Char → ℕ
  | 0, remainder, _ => remainder
  | _, remainder, [] => remainder
  | n + 1, remainder, nbuf =>
    let chunk := nbuf.take 16
    let dividend := Nat.ofDigitChars 10 chunk 0
    let dividend := if remainder ≠ 0 then
        roundDouble (roundDouble dividend + roundDouble (remainder * 10 ^ chunk.length))
      else dividend
    ibanChecksum n (dividend % 97) (nbuf.drop 16)

/-- `TALER_iban_validate`, `none` for `NULL`. -/
def ibanValidate (iban : List Char) : Option String :=
  match iban with
  | c₀ :: c₁ :: c₂ :: c₃ :: bban =>
    if iban.length > 34 then some "IBAN number too long to be valid"
    else if (c₀, c₁) ∉ countryTable then
      some ("Country code `" ++ String.ofList [c₀, c₁] ++ "' not supported\n")
    else match ibanDigits (bban ++ [c₀, c₁, c₂, c₃]) with
      | none => some "internal invariant violation"
      | some nbuf =>
        match nbuf.dropWhile Char.isDigit with
        | c :: rest => some ("digit expected at `" ++ String.ofList (c :: rest) ++ "'")
        | [] => if ibanChecksum nbuf.length 0 nbuf ≠ 1 then some "IBAN checksum is wrong" else none
  | _ => some "IBAN number too short to be valid"

example : ibanValidate "DE75512108001245126199".toList = none := by decide +kernel

end TalerExchange
