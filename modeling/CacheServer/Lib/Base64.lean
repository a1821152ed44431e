import CacheServer.Lib.Utf8

/-
  Base64 with padding, over the standard alphabet.

  The decoder passes over line breaks and does not look at
  the bits that a last group has too many.

  Key definitions include:
    * `Base64.encode`
    * `Base64.decode`

  Key theorems include:
    * `Base64.ascii_encode`
    * `Base64.decode_encode`
-/

------------------------------------------------------------
-- Symbols
------------------------------------------------------------

namespace Base64

/- The symbol for six bits. -/
def symbol
    (n : Nat) :
    UInt8 :=
  if n < 26 then .ofNat (65 + n)
  else if n < 52 then .ofNat (71 + n)
  else if n < 62 then .ofNat (n - 4)
  else if n = 62 then 43
  else 47

def sextet
    (b : UInt8) :
    Option Nat :=
  if 65 ≤ b ∧ b ≤ 90 then some (b.toNat - 65)
  else if 97 ≤ b ∧ b ≤ 122 then some (b.toNat - 71)
  else if 48 ≤ b ∧ b ≤ 57 then some (b.toNat + 4)
  else if b = 43 then some 62
  else if b = 47 then some 63
  else none

def padding : UInt8 := 61

theorem sextet_symbol
    {n : Nat}
    (hBits : n < 64) :
    sextet (symbol n) = some n := by
  revert n
  decide

theorem symbol_ascii
    {n : Nat}
    (hBits : n < 64) :
    symbol n < 128 ∧ symbol n ≠ 10 ∧ symbol n ≠ 13 := by
  revert n
  decide

end Base64

------------------------------------------------------------
-- Groups
------------------------------------------------------------

namespace Base64

/- Groups of three bytes; a last one may be shorter. -/
def encode :
    List UInt8 → List UInt8
| [] => []
| [x] =>
    [symbol (x.toNat / 4), symbol (x.toNat % 4 * 16), padding,
      padding]
| [x, y] =>
    [symbol (x.toNat / 4),
      symbol (x.toNat % 4 * 16 + y.toNat / 16),
      symbol (y.toNat % 16 * 4), padding]
| x :: y :: z :: rest =>
    symbol (x.toNat / 4) ::
      symbol (x.toNat % 4 * 16 + y.toNat / 16) ::
        symbol (y.toNat % 16 * 4 + z.toNat / 64) ::
          symbol (z.toNat % 64) :: encode rest

/- The bytes that four times six bits begin with. -/
def firstByte
    (p q : Nat) :
    UInt8 :=
  .ofNat (p * 4 + q / 16)

def secondByte
    (q r : Nat) :
    UInt8 :=
  .ofNat (q % 16 * 16 + r / 4)

def thirdByte
    (r s : Nat) :
    UInt8 :=
  .ofNat (r % 4 * 64 + s)

/- Groups of four symbols; only the last one is padded. -/
def decodeGroups :
    List UInt8 → Option (List UInt8)
| [] => some []
| a :: b :: c :: d :: rest =>
    match sextet a, sextet b, sextet c, sextet d with
    | some p, some q, some r, some s =>
        (decodeGroups rest).map
          (fun more =>
            firstByte p q :: secondByte q r :: thirdByte r s ::
              more)
    | some p, some q, some r, none =>
        if d = padding ∧ rest = [] then
          some [firstByte p q, secondByte q r]
        else none
    | some p, some q, none, _ =>
        if c = padding ∧ d = padding ∧ rest = [] then
          some [firstByte p q]
        else none
    | _, _, _, _ => none
| _ => none

def lineBreak
    (b : UInt8) :
    Bool :=
  b = 10 || b = 13

def decode
    (text : List UInt8) :
    Option (List UInt8) :=
  decodeGroups (text.filter (fun b => !lineBreak b))

end Base64

------------------------------------------------------------
-- Decoding What Was Encoded
------------------------------------------------------------

namespace Base64

theorem toNat_lt
    (x : UInt8) :
    x.toNat < 256 :=
  x.toNat_lt

theorem ofNat_eq
    {n : Nat}
    {x : UInt8}
    (hEq : n = x.toNat) :
    UInt8.ofNat n = x := by
  subst hEq
  exact UInt8.ofNat_toNat

/- Symbols are ASCII and no line breaks. -/
theorem ascii_encode
    (bs : List UInt8) :
    ∀ b ∈ encode bs, b < 128 ∧ lineBreak b = false := by
  have hSymbol :
      ∀ n < 64,
        symbol n < 128 ∧ lineBreak (symbol n) = false := by
    intro n hBits
    have hAscii := symbol_ascii hBits
    exact ⟨hAscii.1, by simp [lineBreak, hAscii.2]⟩
  have hPadding :
      padding < 128 ∧ lineBreak padding = false := by
    decide
  induction bs using encode.induct with
  | case1 =>
      intro b hMem
      cases hMem
  | case2 x =>
      have hx := toNat_lt x
      simp only [encode, List.forall_mem_cons]
      exact
        ⟨hSymbol _ (by omega), hSymbol _ (by omega), hPadding,
          hPadding, fun _ hNone => by cases hNone⟩
  | case3 x y =>
      have hx := toNat_lt x
      have hy := toNat_lt y
      simp only [encode, List.forall_mem_cons]
      exact
        ⟨hSymbol _ (by omega), hSymbol _ (by omega),
          hSymbol _ (by omega), hPadding,
          fun _ hNone => by cases hNone⟩
  | case4 x y z rest ih =>
      have hx := toNat_lt x
      have hy := toNat_lt y
      have hz := toNat_lt z
      simp only [encode, List.forall_mem_cons]
      exact
        ⟨hSymbol _ (by omega), hSymbol _ (by omega),
          hSymbol _ (by omega), hSymbol _ (by omega), ih⟩

theorem decodeGroups_encode
    (bs : List UInt8) :
    decodeGroups (encode bs) = some bs := by
  have hPadding : sextet padding = none := by decide
  induction bs using encode.induct with
  | case1 => rfl
  | case2 x =>
      have hx := toNat_lt x
      have hFirst :
          firstByte (x.toNat / 4) (x.toNat % 4 * 16) = x :=
        ofNat_eq (by omega)
      rw [encode, decodeGroups, sextet_symbol (by omega),
        sextet_symbol (by omega), hPadding]
      simp [hFirst]
  | case3 x y =>
      have hx := toNat_lt x
      have hy := toNat_lt y
      have hFirst :
          firstByte (x.toNat / 4)
              (x.toNat % 4 * 16 + y.toNat / 16) =
            x :=
        ofNat_eq (by omega)
      have hSecond :
          secondByte (x.toNat % 4 * 16 + y.toNat / 16)
              (y.toNat % 16 * 4) =
            y :=
        ofNat_eq (by omega)
      rw [encode, decodeGroups, sextet_symbol (by omega),
        sextet_symbol (by omega), sextet_symbol (by omega),
        hPadding]
      simp [hFirst, hSecond]
  | case4 x y z rest ih =>
      have hx := toNat_lt x
      have hy := toNat_lt y
      have hz := toNat_lt z
      have hFirst :
          firstByte (x.toNat / 4)
              (x.toNat % 4 * 16 + y.toNat / 16) =
            x :=
        ofNat_eq (by omega)
      have hSecond :
          secondByte (x.toNat % 4 * 16 + y.toNat / 16)
              (y.toNat % 16 * 4 + z.toNat / 64) =
            y :=
        ofNat_eq (by omega)
      have hThird :
          thirdByte (y.toNat % 16 * 4 + z.toNat / 64)
              (z.toNat % 64) =
            z :=
        ofNat_eq (by omega)
      rw [encode, decodeGroups, sextet_symbol (by omega),
        sextet_symbol (by omega), sextet_symbol (by omega),
        sextet_symbol (by omega), ih]
      simp [hFirst, hSecond, hThird]

/- What was encoded is decoded to the same bytes. -/
theorem decode_encode
    (bs : List UInt8) :
    decode (encode bs) = some bs := by
  have hKeep :
      (encode bs).filter (fun b => !lineBreak b) =
        encode bs := by
    apply List.filter_eq_self.mpr
    intro b hMem
    rw [(ascii_encode bs b hMem).2]
    rfl
  unfold decode
  rw [hKeep]
  exact decodeGroups_encode bs

end Base64
