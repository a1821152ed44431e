import Mathlib.Data.List.Basic

/-
  Byte sequences that are UTF-8.

  A sequence is valid if it encodes some text. No character
  begins inside another one, so a sequence may be cut at any
  character in it; an ASCII byte is always one of its own.

  Key definitions include:
    * `Utf8.encode`
    * `Utf8.Valid`
    * `Utf8.runes`
    * `Utf8.repair`

  Key theorems include:
    * `Utf8.encode_injective`
    * `Utf8.valid_append_char`
    * `Utf8.encodeChar_cases`
    * `Utf8.valid_append_ascii`
    * `Utf8.runes_encode`
    * `Utf8.repair_eq_iff`
-/

------------------------------------------------------------
-- Valid Sequences
------------------------------------------------------------

namespace Utf8

/- Decided byte by byte, not for all bytes that there are. -/
instance (priority := high) decidableForallMem
    (P : UInt8 → Prop)
    [DecidablePred P]
    (bs : List UInt8) :
    Decidable (∀ b ∈ bs, P b) :=
  List.decidableBAll P bs

/- The bytes of a text. -/
def encode
    (text : List Char) :
    List UInt8 :=
  text.flatMap String.utf8EncodeChar

def Valid
    (bs : List UInt8) :
    Prop :=
  ∃ text, encode text = bs

@[simp] theorem encode_nil :
    encode [] = [] := rfl

@[simp] theorem encode_cons
    (c : Char)
    (text : List Char) :
    encode (c :: text) =
      String.utf8EncodeChar c ++ encode text := rfl

@[simp] theorem encode_append
    (text other : List Char) :
    encode (text ++ other) = encode text ++ encode other := by
  unfold encode
  exact List.flatMap_append

theorem valid_encode
    (text : List Char) :
    Valid (encode text) :=
  ⟨text, rfl⟩

theorem valid_nil :
    Valid [] :=
  ⟨[], rfl⟩

theorem Valid.append
    {bs cs : List UInt8}
    (hFirst : Valid bs)
    (hLast : Valid cs) :
    Valid (bs ++ cs) := by
  rcases hFirst with ⟨text, rfl⟩
  rcases hLast with ⟨other, rfl⟩
  exact ⟨text ++ other, encode_append text other⟩

/- Different texts have different bytes. -/
theorem encode_injective
    {text other : List Char}
    (h : encode text = encode other) :
    text = other := by
  have hArray :
      (String.ofList text).toByteArray =
        (String.ofList other).toByteArray := by
    rw [String.toByteArray_ofList, String.toByteArray_ofList]
    exact congrArg List.toByteArray h
  have hString := String.toByteArray_inj.mp hArray
  have hList := congrArg String.toList hString
  simpa using hList

end Utf8

------------------------------------------------------------
-- Characters In A Sequence
------------------------------------------------------------

namespace Utf8

/- Which character comes first, and what comes after it. -/
theorem encodeChar_append_inj
    {c d : Char}
    {bs cs : List UInt8}
    (h :
      String.utf8EncodeChar c ++ bs =
        String.utf8EncodeChar d ++ cs) :
    c = d ∧ bs = cs := by
  have hArray := congrArg List.toByteArray h
  rw [List.toByteArray_append, List.toByteArray_append]
    at hArray
  have hDecode :=
    congrArg (fun a => a.utf8DecodeChar? 0) hArray
  simp only [ByteArray.utf8DecodeChar?_utf8EncodeChar_append,
    Option.some.injEq] at hDecode
  subst hDecode
  exact ⟨rfl, List.append_cancel_left h⟩

/- A character starts with a byte that is in no other place. -/
theorem encodeChar_head
    (c : Char) :
    ∃ b more,
      String.utf8EncodeChar c = b :: more ∧
        b.IsUTF8FirstByte := by
  cases hBytes : String.utf8EncodeChar c with
  | nil =>
      have hLength := String.length_utf8EncodeChar c
      have hPos := c.utf8Size_pos
      rw [hBytes, List.length_nil] at hLength
      omega
  | cons b more =>
      have hLt : 0 < (String.utf8EncodeChar c).length := by
        simp [hBytes]
      have hFirst : (String.utf8EncodeChar c)[0] = b := by
        simp [hBytes]
      refine ⟨b, more, rfl, ?_⟩
      rw [← hFirst]
      exact UInt8.isUTF8FirstByte_getElem_utf8EncodeChar.mpr rfl

theorem nil_of_encodeChar
    {d : Char}
    {b : UInt8}
    {bs cs : List UInt8}
    (hInside : String.utf8EncodeChar d = bs ++ b :: cs)
    (hFirst : b.IsUTF8FirstByte) :
    bs = [] := by
  have hLt : bs.length < (String.utf8EncodeChar d).length := by
    simp [hInside]
  have hByte : (String.utf8EncodeChar d)[bs.length] = b := by
    simp [hInside]
  rw [← hByte] at hFirst
  exact
    List.length_eq_zero_iff.mp
      (UInt8.isUTF8FirstByte_getElem_utf8EncodeChar.mp hFirst)

/- A sequence is valid if it is so around a character. -/
theorem valid_append_char
    {bs cs : List UInt8}
    (c : Char) :
    Valid (bs ++ (String.utf8EncodeChar c ++ cs)) ↔
      Valid bs ∧ Valid cs := by
  constructor
  · intro h
    rcases h with ⟨text, hText⟩
    rcases encodeChar_head c with ⟨b, more, hBytes, hFirst⟩
    induction text generalizing bs with
    | nil => simp [hBytes] at hText
    | cons d text ih =>
        rw [encode_cons] at hText
        rcases List.append_eq_append_iff.mp hText with
          ⟨as, hBs, hRest⟩ | ⟨as, hChar, hRest⟩
        · rcases ih hRest with ⟨hAs, hCs⟩
          have hOne : Valid (String.utf8EncodeChar d) :=
            ⟨[d], by simp⟩
          exact ⟨hBs ▸ hOne.append hAs, hCs⟩
        · cases as with
          | nil =>
              have hNext :
                  encode text =
                    [] ++ (String.utf8EncodeChar c ++ cs) := by
                simpa using hRest.symm
              refine ⟨?_, (ih hNext).2⟩
              exact ⟨[d], by simpa using hChar⟩
          | cons a as =>
              have hSame : b = a := by
                rw [hBytes] at hRest
                exact (List.cons.inj hRest).1
              have hNil : bs = [] :=
                nil_of_encodeChar hChar (hSame ▸ hFirst)
              subst hNil
              have hEq := (encodeChar_append_inj hText).2
              exact ⟨valid_nil, hEq ▸ valid_encode text⟩
  · intro h
    rcases h with ⟨hBs, hCs⟩
    have hOne : Valid (String.utf8EncodeChar c) :=
      ⟨[c], by simp⟩
    exact hBs.append (hOne.append hCs)

end Utf8

------------------------------------------------------------
-- ASCII Bytes
------------------------------------------------------------

namespace Utf8

theorem byte_ge
    {n : Nat}
    (hLow : 128 ≤ n)
    (hHigh : n < 256) :
    128 ≤ UInt8.ofNat n := by
  rw [UInt8.le_iff_toNat_le, UInt8.toNat_ofNat']
  have hSame : n % 2 ^ 8 = n := Nat.mod_eq_of_lt hHigh
  rw [hSame]
  exact hLow

/-
  A character is one ASCII byte, or none of its bytes is
  one.
-/
theorem encodeChar_cases
    (c : Char) :
    (c.toNat < 128 ∧
        String.utf8EncodeChar c = [UInt8.ofNat c.toNat]) ∨
      (128 ≤ c.toNat ∧
        ∀ b ∈ String.utf8EncodeChar c, 128 ≤ b) := by
  have hVal : c.val.toNat = c.toNat := rfl
  unfold String.utf8EncodeChar
  rw [hVal]
  by_cases hOne : c.toNat ≤ 0x7f
  · rw [if_pos hOne]
    exact Or.inl ⟨by omega, rfl⟩
  · rw [if_neg hOne]
    refine Or.inr ⟨by omega, ?_⟩
    intro b hMem
    by_cases hTwo : c.toNat ≤ 0x7ff
    · rw [if_pos hTwo] at hMem
      simp only [List.mem_cons, List.not_mem_nil,
        or_false] at hMem
      rcases hMem with rfl | rfl
      · exact byte_ge (by omega) (by omega)
      · exact byte_ge (by omega) (by omega)
    · rw [if_neg hTwo] at hMem
      by_cases hThree : c.toNat ≤ 0xffff
      · rw [if_pos hThree] at hMem
        simp only [List.mem_cons, List.not_mem_nil,
          or_false] at hMem
        rcases hMem with rfl | rfl | rfl
        · exact byte_ge (by omega) (by omega)
        · exact byte_ge (by omega) (by omega)
        · exact byte_ge (by omega) (by omega)
      · rw [if_neg hThree] at hMem
        simp only [List.mem_cons, List.not_mem_nil,
          or_false] at hMem
        rcases hMem with rfl | rfl | rfl | rfl
        · exact byte_ge (by omega) (by omega)
        · exact byte_ge (by omega) (by omega)
        · exact byte_ge (by omega) (by omega)
        · exact byte_ge (by omega) (by omega)

theorem encodeChar_ascii
    {b : UInt8}
    (hAscii : b < 128) :
    String.utf8EncodeChar (.ofNat b.toNat) = [b] := by
  have hLt : b.toNat < 128 := UInt8.lt_iff_toNat_lt.mp hAscii
  have hNat : (Char.ofNat b.toNat).toNat = b.toNat := by
    unfold Char.ofNat
    rw [dif_pos (Or.inl (by omega))]
    rfl
  rcases encodeChar_cases (Char.ofNat b.toNat) with
    ⟨_, hEncode⟩ | ⟨hGe, _⟩
  · rw [hEncode, hNat]
    simp
  · omega

theorem valid_singleton
    {b : UInt8}
    (hAscii : b < 128) :
    Valid [b] :=
  ⟨[.ofNat b.toNat], by simp [encodeChar_ascii hAscii]⟩

/- ASCII text is UTF-8. -/
theorem valid_of_ascii
    {bs : List UInt8}
    (hAscii : ∀ b ∈ bs, b < 128) :
    Valid bs := by
  induction bs with
  | nil => exact valid_nil
  | cons b bs ih =>
      have hFirst := valid_singleton (hAscii b (by simp))
      have hRest :=
        ih (fun c hMem => hAscii c (List.mem_cons_of_mem b hMem))
      exact hFirst.append hRest

/- A sequence is valid if it is so on both sides of ASCII. -/
theorem valid_append_ascii
    {bs cs : List UInt8}
    {b : UInt8}
    (hAscii : b < 128) :
    Valid (bs ++ b :: cs) ↔ Valid bs ∧ Valid cs := by
  have hSplit := @valid_append_char bs cs (.ofNat b.toNat)
  rw [encodeChar_ascii hAscii] at hSplit
  exact hSplit

theorem valid_cons_ascii
    {cs : List UInt8}
    {b : UInt8}
    (hAscii : b < 128) :
    Valid (b :: cs) ↔ Valid cs := by
  have hSplit := @valid_append_ascii [] cs b hAscii
  constructor
  · intro h
    exact (hSplit.mp h).2
  · intro h
    exact hSplit.mpr ⟨valid_nil, h⟩

theorem valid_ascii_append
    {bs cs : List UInt8}
    (hAscii : ∀ b ∈ bs, b < 128) :
    Valid (bs ++ cs) ↔ Valid cs := by
  induction bs with
  | nil => exact Iff.rfl
  | cons b bs ih =>
      rw [List.cons_append, valid_cons_ascii (hAscii b (by simp))]
      exact
        ih (fun c hMem => hAscii c (List.mem_cons_of_mem b hMem))

end Utf8

------------------------------------------------------------
-- Decoding
------------------------------------------------------------

namespace Utf8

/- The character at the front of a sequence. -/
def decodeChar?
    (bs : List UInt8) :
    Option Char :=
  bs.toByteArray.utf8DecodeChar? 0

/-
  The characters of a sequence, but for `skip` bytes of one
  that is read. A byte that starts no character is read as
  the replacement character.
-/
def runesFrom :
    Nat → List UInt8 → List Char
| _, [] => []
| skip + 1, _ :: bs => runesFrom skip bs
| 0, b :: bs =>
    match decodeChar? (b :: bs) with
    | some c => c :: runesFrom (c.utf8Size - 1) bs
    | none => '\uFFFD' :: runesFrom 0 bs

/- The characters that a sequence is read as. -/
def runes
    (bs : List UInt8) :
    List Char :=
  runesFrom 0 bs

theorem runesFrom_append
    (more bs : List UInt8) :
    runesFrom more.length (more ++ bs) = runes bs := by
  induction more with
  | nil => rfl
  | cons b more ih => exact ih

theorem decodeChar?_encode
    (c : Char)
    (bs : List UInt8) :
    decodeChar? (String.utf8EncodeChar c ++ bs) = some c := by
  unfold decodeChar?
  rw [List.toByteArray_append]
  exact ByteArray.utf8DecodeChar?_utf8EncodeChar_append

theorem runes_append_char
    (c : Char)
    (bs : List UInt8) :
    runes (String.utf8EncodeChar c ++ bs) = c :: runes bs := by
  have hDecode := decodeChar?_encode c bs
  have hLength := String.length_utf8EncodeChar c
  rcases encodeChar_head c with ⟨b, more, hBytes, _⟩
  rw [hBytes] at hDecode hLength ⊢
  rw [List.length_cons] at hLength
  rw [List.cons_append] at hDecode ⊢
  simp only [runes, runesFrom, hDecode]
  rw [← hLength, Nat.add_sub_cancel, runesFrom_append]
  rfl

/- What encodes a text is read as that text. -/
theorem runes_encode
    (text : List Char) :
    runes (encode text) = text := by
  induction text with
  | nil => rfl
  | cons c text ih =>
      rw [encode_cons, runes_append_char, ih]

/- A sequence with what is no character replaced. -/
def repair
    (bs : List UInt8) :
    List UInt8 :=
  encode (runes bs)

theorem valid_repair
    (bs : List UInt8) :
    Valid (repair bs) :=
  valid_encode (runes bs)

/- UTF-8 is what needs no repair. -/
theorem repair_eq_iff
    {bs : List UInt8} :
    repair bs = bs ↔ Valid bs := by
  constructor
  · intro h
    exact ⟨runes bs, h⟩
  · intro h
    rcases h with ⟨text, rfl⟩
    unfold repair
    rw [runes_encode]

end Utf8
