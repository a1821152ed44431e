import CacheServer.Lib.Utf8
import Mathlib.Data.Nat.Digits.Defs

/-
  Decimal integers with an optional sign, in a range.

  Key definitions include:
    * `Decimal.signed`
    * `Decimal.InRange`
    * `Decimal.parse`

  Key theorems include:
    * `Decimal.signed_nat`
    * `Decimal.signed_negative`
    * `Decimal.parse_eq_some`
-/

------------------------------------------------------------
-- Reading
------------------------------------------------------------

namespace Decimal

/- The number that digits continue. -/
def natFrom :
    Nat → List UInt8 → Option Nat
| acc, [] => some acc
| acc, b :: rest =>
    if 48 ≤ b ∧ b ≤ 57 then
      natFrom (acc * 10 + (b.toNat - 48)) rest
    else
      none

/- At least one digit, and nothing else. -/
def unsigned
    (text : List UInt8) :
    Option Nat :=
  if text = [] then none else natFrom 0 text

def signed :
    List UInt8 → Option Int
| 45 :: rest => (unsigned rest).map (fun n => -(n : Int))
| 43 :: rest => (unsigned rest).map (fun n => (n : Int))
| text => (unsigned text).map (fun n => (n : Int))

/- The integers of so many bits. -/
def InRange
    (bits : Nat)
    (n : Int) :
    Prop :=
  -2 ^ (bits - 1) ≤ n ∧ n < 2 ^ (bits - 1)

instance (bits : Nat) (n : Int) : Decidable (InRange bits n) :=
  inferInstanceAs (Decidable (_ ∧ _))

/- None is a text that is no integer, or one out of range. -/
def parse
    (bits : Nat)
    (text : List UInt8) :
    Option Int :=
  (signed text).filter (fun n => decide (InRange bits n))

theorem parse_eq_some
    {bits : Nat}
    {text : List UInt8}
    {n : Int} :
    parse bits text = some n ↔
      signed text = some n ∧ InRange bits n := by
  simp [parse, Option.filter_eq_some_iff]

end Decimal

------------------------------------------------------------
-- Reading What Was Written
------------------------------------------------------------

namespace Decimal

theorem natFrom_append
    (acc : Nat)
    (text more : List UInt8) :
    natFrom acc (text ++ more) =
      (natFrom acc text).bind (fun n => natFrom n more) := by
  induction text generalizing acc with
  | nil => rfl
  | cons b text ih =>
      simp only [List.cons_append, natFrom]
      by_cases hDigit : 48 ≤ b ∧ b ≤ 57
      · rw [if_pos hDigit, if_pos hDigit, ih]
      · rw [if_neg hDigit, if_neg hDigit]
        rfl

theorem natFrom_digit
    {d : Nat}
    (acc : Nat)
    (hDigit : d < 10) :
    natFrom acc (String.utf8EncodeChar d.digitChar) =
      some (acc * 10 + d) := by
  have hByte :
      String.utf8EncodeChar d.digitChar = [UInt8.ofNat (48 + d)] ∧
        48 ≤ UInt8.ofNat (48 + d) ∧
          UInt8.ofNat (48 + d) ≤ 57 ∧
            (UInt8.ofNat (48 + d)).toNat - 48 = d := by
    clear acc
    revert d
    decide
  rcases hByte with ⟨hEncode, hLow, hHigh, hNat⟩
  rw [hEncode, natFrom, if_pos ⟨hLow, hHigh⟩, hNat]
  rfl

theorem natFrom_toDigits
    (n : Nat) :
    natFrom 0 (Utf8.encode (Nat.toDigits 10 n)) = some n := by
  induction n using Nat.strongRecOn with
  | ind n ih =>
      by_cases hOne : n < 10
      · rw [Nat.toDigits_of_lt_base hOne, Utf8.encode_cons,
          Utf8.encode_nil, List.append_nil,
          natFrom_digit 0 hOne]
        simp
      · have hInit := ih (n / 10) (by omega)
        have hLast : n % 10 < 10 := Nat.mod_lt n (by omega)
        rw [Nat.toDigits_of_base_le (by omega) (by omega),
          Utf8.encode_append, natFrom_append, hInit,
          Utf8.encode_cons, Utf8.encode_nil, List.append_nil]
        have hDigit := natFrom_digit (n / 10) hLast
        rw [Option.bind_some, hDigit]
        exact congrArg some (by omega)

theorem unsigned_toDigits
    (n : Nat) :
    unsigned (Utf8.encode (Nat.toDigits 10 n)) = some n := by
  have hRead := natFrom_toDigits n
  unfold unsigned
  by_cases hNil : Utf8.encode (Nat.toDigits 10 n) = []
  · rw [hNil] at hRead
    have hZero : n = 0 := by
      simpa [natFrom] using hRead.symm
    subst hZero
    exact absurd hNil (by decide)
  · rw [if_neg hNil, hRead]

/- Digits are read as their number. -/
theorem signed_nat
    (n : Nat) :
    signed (Utf8.encode (Nat.toDigits 10 n)) =
      some (n : Int) := by
  have hDigits := unsigned_toDigits n
  have hRead := natFrom_toDigits n
  cases hText : Utf8.encode (Nat.toDigits 10 n) with
  | nil =>
      rw [hText] at hDigits
      cases hDigits
  | cons b rest =>
      rw [hText] at hDigits hRead
      have hMinus : b ≠ 45 := by
        intro hEq
        subst hEq
        cases hRead
      have hPlus : b ≠ 43 := by
        intro hEq
        subst hEq
        cases hRead
      unfold signed
      split
      · rename_i hEq
        cases hEq
        exact absurd rfl hMinus
      · rename_i hEq
        cases hEq
        exact absurd rfl hPlus
      · rw [hDigits]
        rfl

theorem signed_negative
    (n : Nat) :
    signed (45 :: Utf8.encode (Nat.toDigits 10 n)) =
      some (-(n : Int)) := by
  have hDigits := unsigned_toDigits n
  simp [signed, hDigits]

end Decimal
