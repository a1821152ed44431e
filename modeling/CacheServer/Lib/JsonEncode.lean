import CacheServer.Lib.JsonText
import Mathlib.Data.List.Sort

/-
  JSON objects written by an encoder that takes the values
  as texts.

  A name is put between quotes, with escape sequences for
  what may not stand there and for characters of HTML. A text
  for a value is read through and compacted; one that cannot
  be read lets the whole object fail.

  Key definitions include:
    * `Json.quote`
    * `Json.compact`
    * `Json.encodeMap`

  Key theorems include:
    * `Json.exec_quote`
    * `Json.read_compact`
    * `Json.valid_compact_iff`
    * `Json.encodeMap_isSome`
    * `Json.read_encodeMap`
-/

------------------------------------------------------------
-- Escape Sequences
------------------------------------------------------------

namespace Json

/- A hexadecimal digit in lower case. -/
def hexByte
    (d : Nat) :
    UInt8 :=
  if d < 10 then .ofNat (48 + d) else .ofNat (87 + d)

def unicodeEscape
    (u : Nat) :
    List UInt8 :=
  [92, 117, hexByte (u / 4096 % 16), hexByte (u / 256 % 16),
    hexByte (u / 16 % 16), hexByte (u % 16)]

/- Bytes that are not to be taken for HTML. -/
def html
    (b : UInt8) :
    Bool :=
  b = 60 || b = 62 || b = 38

/- The letter of a short escape sequence. -/
def shortName :
    Nat → Option UInt8
| 34 => some 34
| 92 => some 92
| 8 => some 98
| 12 => some 102
| 10 => some 110
| 13 => some 114
| 9 => some 116
| _ => none

/- Characters written by their number. -/
def numbered
    (n : Nat) :
    Bool :=
  n < 32 || n = 60 || n = 62 || n = 38 || n = 0x2028 ||
    n = 0x2029

/- A character between quotes. -/
def quoteChar
    (c : Char) :
    List UInt8 :=
  match shortName c.toNat with
  | some b => [92, b]
  | none =>
      if numbered c.toNat then
        unicodeEscape c.toNat
      else
        String.utf8EncodeChar c

def quote
    (text : List Char) :
    List UInt8 :=
  34 :: (text.flatMap quoteChar ++ [34])

end Json

------------------------------------------------------------
-- Compact Texts
------------------------------------------------------------

namespace Json

def Mode.inString :
    Mode → Bool
| .str _ _ _ => true
| _ => false

/- A line or paragraph separator that the text starts with. -/
def separator :
    List UInt8 → Option Nat
| 0xE2 :: 0x80 :: 0xA8 :: _ => some 0x2028
| 0xE2 :: 0x80 :: 0xA9 :: _ => some 0x2029
| _ => none

/-
  What is written for a byte, given the text after it, and
  how many bytes of this text are written with it.
-/
def compactByte
    (s : State)
    (b : UInt8)
    (rest : List UInt8) :
    List UInt8 × Nat :=
  match separator (b :: rest) with
  | some u => (unicodeEscape u, 2)
  | none =>
      if html b then (unicodeEscape b.toNat, 0)
      else if space b && !s.mode.inString then ([], 0)
      else ([b], 0)

/-
  The rest of a text that has been read this far, of which
  the first `skip` bytes have been written.
-/
def compactFrom
    (limit : Option Nat) :
    State → Nat → List UInt8 → Option (List UInt8)
| s, _, [] => if (finish s).isSome then some [] else none
| s, skip, b :: rest =>
    match step limit s b with
    | none => none
    | some t =>
        match skip with
        | n + 1 => compactFrom limit t n rest
        | 0 =>
            let written := compactByte s b rest
            (compactFrom limit t written.2 rest).map
              (fun out => written.1 ++ out)

/- A text without whitespace and HTML, if it is a value. -/
def compact
    (limit : Option Nat)
    (text : List UInt8) :
    Option (List UInt8) :=
  compactFrom limit start 0 text

end Json

------------------------------------------------------------
-- Objects
------------------------------------------------------------

namespace Json

/- A text that is passed on as a value; none is `null`. -/
def marshalRaw :
    Option (List UInt8) → List UInt8
| none => [110, 117, 108, 108]
| some text => text

def compactAll
    (limit : Option Nat) :
    List (List Char × Option (List UInt8)) →
      Option (List (List Char × List UInt8))
| [] => some []
| (name, message) :: rest =>
    match compact limit (marshalRaw message),
        compactAll limit rest with
    | some text, some more => some ((name, text) :: more)
    | _, _ => none

/- Members, each with the comma before it. -/
def moreText :
    List (List Char × List UInt8) → List UInt8
| [] => []
| (name, text) :: rest =>
    44 :: (quote name ++ 58 :: (text ++ moreText rest))

def objectText :
    List (List Char × List UInt8) → List UInt8
| [] => [123, 125]
| (name, text) :: rest =>
    123 :: (quote name ++ 58 :: (text ++ (moreText rest ++ [125])))

/- The order of the bytes of names. -/
def nameLE
    (m m' : List Char × Option (List UInt8)) :
    Prop :=
  Utf8.encode m.1 ≤ Utf8.encode m'.1

instance : DecidableRel nameLE :=
  fun m m' =>
    inferInstanceAs
      (Decidable (Utf8.encode m.1 ≤ Utf8.encode m'.1))

/- The object with these members, sorted, and a line break. -/
def encodeMap
    (limit : Option Nat)
    (members : List (List Char × Option (List UInt8))) :
    Option (List UInt8) :=
  (compactAll limit (members.insertionSort nameLE)).map
    (fun parts => objectText parts ++ [10])

end Json

------------------------------------------------------------
-- Reading Names Back
------------------------------------------------------------

namespace Json

variable {owner : Option Members}
variable {text : List UInt8}
variable {stack : List Frame}

theorem hexDigit_hexByte
    {d : Nat}
    (hDigit : d < 16) :
    hexDigit (hexByte d) = some d := by
  revert d
  decide

/- One of the digits of an escape sequence. -/
theorem step_hexByte
    {high : Option Nat}
    {digits code d : Nat}
    (hDigit : d < 16) :
    step none
        { mode := .str owner text (.hex high digits code)
          stack := stack } (hexByte d) =
      some
        (if digits = 3 then
          { mode :=
              .str owner (addUnit text high (16 * code + d)).1
                (addUnit text high (16 * code + d)).2
            stack := stack }
        else
          { mode :=
              .str owner text
                (.hex high (digits + 1) (16 * code + d))
            stack := stack }) := by
  have hHex := hexDigit_hexByte hDigit
  by_cases hLast : digits = 3
  · simp [step, StrPc.isPlain, strNext, hHex, hLast]
  · simp [step, StrPc.isPlain, strNext, hHex, hLast]

/- The unit of a character is the character. -/
theorem addUnit_char
    (high : Option Nat)
    {u : Nat}
    (hUnit : u < 0xD800) :
    addUnit text high u =
      (text ++ String.utf8EncodeChar (.ofNat u),
        .plain none) := by
  have hHigh : highSurrogate u = false := by
    simp only [highSurrogate, Bool.and_eq_false_iff,
      decide_eq_false_iff_not]
    omega
  have hLow : lowSurrogate u = false := by
    simp only [lowSurrogate, Bool.and_eq_false_iff,
      decide_eq_false_iff_not]
    omega
  cases high with
  | none => simp [addUnit, hHigh, hLow]
  | some h => simp [addUnit, hHigh, hLow]

theorem exec_unicodeEscape
    (high : Option Nat)
    {u : Nat}
    (hUnit : u < 0xD800) :
    (reader none).exec
        { mode := .str owner text (.plain high)
          stack := stack } (unicodeEscape u) =
      some
        { mode :=
            .str owner
              (text ++ String.utf8EncodeChar (.ofNat u))
              (.plain none)
          stack := stack } := by
  have hCode :
      16 * (16 * (16 * (16 * 0 + u / 4096 % 16) +
        u / 256 % 16) + u / 16 % 16) + u % 16 = u := by
    omega
  refine exec_byte rfl (exec_byte rfl ?_)
  refine exec_byte (step_hexByte (by omega)) ?_
  refine exec_byte (step_hexByte (by omega)) ?_
  refine exec_byte (step_hexByte (by omega)) ?_
  refine exec_byte (step_hexByte (by omega)) ?_
  simp only [if_true, hCode, addUnit_char high hUnit]
  rfl

theorem shortName_spec
    {n : Nat}
    {b : UInt8}
    (h : shortName n = some b) :
    n < 128 ∧ b < 128 ∧ b ≠ 117 ∧
      shortEscape b = some (UInt8.ofNat n) := by
  unfold shortName at h
  split at h
  all_goals
    cases h
    try decide

theorem shortName_none
    {n : Nat}
    (h : shortName n = none) :
    n ≠ 34 ∧ n ≠ 92 := by
  constructor
  · intro hQuote
    rw [hQuote] at h
    cases h
  · intro hSlash
    rw [hSlash] at h
    cases h

theorem plain_of_high
    {b : UInt8}
    (hHigh : 128 ≤ b) :
    Plain b := by
  refine ⟨?_, ?_, UInt8.le_trans (by decide) hHigh⟩
  · intro hQuote
    subst hQuote
    exact absurd hHigh (by decide)
  · intro hSlash
    subst hSlash
    exact absurd hHigh (by decide)

/- A character that needs no escape sequence. -/
theorem plainText_encodeChar
    {c : Char}
    (hShort : shortName c.toNat = none)
    (hNumber : numbered c.toNat = false) :
    PlainText (String.utf8EncodeChar c) := by
  rcases Utf8.encodeChar_cases c with
    ⟨hAscii, hBytes⟩ | ⟨_, hHigh⟩
  · rw [hBytes]
    intro b hMem
    rw [List.mem_singleton.mp hMem]
    have hNat : (UInt8.ofNat c.toNat).toNat = c.toNat := by
      rw [UInt8.toNat_ofNat']
      exact Nat.mod_eq_of_lt (by omega)
    have hOther := shortName_none hShort
    simp only [numbered, Bool.or_eq_false_iff,
      decide_eq_false_iff_not] at hNumber
    refine ⟨?_, ?_, ?_⟩
    · intro hQuote
      rw [hQuote] at hNat
      exact hOther.1 hNat.symm
    · intro hSlash
      rw [hSlash] at hNat
      exact hOther.2 hNat.symm
    · rw [UInt8.le_iff_toNat_le, hNat]
      change 32 ≤ c.toNat
      omega
  · intro b hMem
    exact plain_of_high (hHigh b hMem)

theorem lt_of_numbered
    {n : Nat}
    (h : numbered n = true) :
    n < 0xD800 := by
  simp only [numbered, Bool.or_eq_true, decide_eq_true_eq]
    at h
  omega

/- A character between quotes is read as itself. -/
theorem exec_quoteChar
    (c : Char) :
    (reader none).exec
        { mode := .str owner text (.plain none)
          stack := stack } (quoteChar c) =
      some
        { mode :=
            .str owner (text ++ String.utf8EncodeChar c)
              (.plain none)
          stack := stack } := by
  cases hShort : shortName c.toNat with
  | some b =>
      rcases shortName_spec hShort with
        ⟨hAscii, _, hUnit, hEscape⟩
      have hChar :
          String.utf8EncodeChar c = [UInt8.ofNat c.toNat] := by
        rcases Utf8.encodeChar_cases c with
          ⟨_, hBytes⟩ | ⟨hHigh, _⟩
        · exact hBytes
        · omega
      have hQuote : quoteChar c = [92, b] := by
        simp [quoteChar, hShort]
      rw [hQuote, hChar]
      refine exec_byte rfl (exec_byte ?_ rfl)
      simp [step, StrPc.isPlain, strNext, hUnit, hEscape]
  | none =>
      cases hNumber : numbered c.toNat with
      | true =>
          have hQuote : quoteChar c = unicodeEscape c.toNat := by
            simp [quoteChar, hShort, hNumber]
          have hExec :
              (reader none).exec
                  { mode := .str owner text (.plain none)
                    stack := stack } (unicodeEscape c.toNat) =
                some _ :=
            exec_unicodeEscape none (lt_of_numbered hNumber)
          rw [Char.ofNat_toNat] at hExec
          rw [hQuote]
          exact hExec
      | false =>
          have hQuote :
              quoteChar c = String.utf8EncodeChar c := by
            simp [quoteChar, hShort, hNumber]
          rw [hQuote]
          exact exec_plain (plainText_encodeChar hShort hNumber)

theorem exec_quoteChars
    (name : List Char) :
    (reader none).exec
        { mode := .str owner text (.plain none)
          stack := stack } (name.flatMap quoteChar) =
      some
        { mode :=
            .str owner (text ++ Utf8.encode name) (.plain none)
          stack := stack } := by
  induction name generalizing text with
  | nil => simp
  | cons c name ih =>
      have hFirst :
          (reader none).exec
              { mode := .str owner text (.plain none)
                stack := stack } (quoteChar c) =
            some _ :=
        exec_quoteChar c
      rw [List.flatMap_cons, Utf8.encode_cons,
        ← List.append_assoc]
      exact exec_then hFirst ih

/- Between its quotes, a text is read as it is. -/
theorem exec_quote
    (name : List Char) :
    (reader none).exec
        { mode := .str owner [] (.plain none), stack := stack }
        (name.flatMap quoteChar ++ [34]) =
      some (closeString (Utf8.encode name) stack owner) := by
  have hText :
      (reader none).exec
          { mode := .str owner [] (.plain none)
            stack := stack } (name.flatMap quoteChar) =
        some _ :=
    exec_quoteChars name
  exact exec_then hText (exec_byte (step_close none) rfl)

end Json

------------------------------------------------------------
-- Bytes Outside Of Strings
------------------------------------------------------------

namespace Json

variable {s t : State}
variable {b : UInt8}
variable {limit : Option Nat}

/- A byte that may stand outside of strings. -/
def Syntactic
    (b : UInt8) :
    Prop :=
  b < 128 ∧ html b = false

instance (b : UInt8) : Decidable (Syntactic b) :=
  inferInstanceAs (Decidable (_ ∧ _))

def letter
    (b : UInt8) :
    Bool :=
  97 ≤ b && b ≤ 122

/- What is left of a literal are letters. -/
def Mode.Sound :
    Mode → Prop
| .lit rest _ => ∀ c ∈ rest, letter c = true
| _ => True

theorem syntactic_of_letter
    (b : UInt8)
    (hLetter : letter b = true) :
    Syntactic b ∧ space b = false := by
  simp only [letter, Bool.and_eq_true, decide_eq_true_eq]
    at hLetter
  grind [Syntactic, html, space]

theorem syntactic_of_digit
    (b : UInt8)
    (hDigit : digit b = true) :
    Syntactic b := by
  simp only [digit, Bool.and_eq_true, decide_eq_true_eq]
    at hDigit
  grind [Syntactic, html]

theorem space_cases
    (hSpace : space b = true) :
    b = 32 ∨ b = 9 ∨ b = 10 ∨ b = 13 := by
  simpa [space, or_assoc] using hSpace

theorem syntactic_of_space
    (b : UInt8)
    (hSpace : space b = true) :
    Syntactic b := by
  rcases space_cases hSpace with rfl | rfl | rfl | rfl
  · decide
  · decide
  · decide
  · decide

theorem ends_of_space
    (b : UInt8)
    (hSpace : space b = true) :
    Ends b := by
  intro pc
  rcases space_cases hSpace with rfl | rfl | rfl | rfl
  · cases pc with
    | _ => rfl
  · cases pc with
    | _ => rfl
  · cases pc with
    | _ => rfl
  · cases pc with
    | _ => rfl

/- A number goes on with a digit, a sign, a point or an e. -/
theorem numNext_cases
    {pc : NumPc}
    (hNext : numNext pc b ≠ none) :
    digit b = true ∨
      b = 43 ∨ b = 45 ∨ b = 46 ∨ b = 69 ∨ b = 101 := by
  have hZero : digit 48 = true := rfl
  cases pc with
  | _ => grind [numNext, numPoint, numExp]

theorem syntactic_of_numNext
    (pc : NumPc)
    (b : UInt8)
    (hNext : numNext pc b ≠ none) :
    Syntactic b := by
  rcases numNext_cases hNext with
    hDigit | rfl | rfl | rfl | rfl | rfl
  · exact syntactic_of_digit b hDigit
  · decide
  · decide
  · decide
  · decide
  · decide

theorem deliver_sound
    (v : Json)
    (stack : List Frame) :
    (deliver v stack).mode.Sound := by
  cases stack with
  | nil => trivial
  | cons frame rest =>
      cases frame with
      | item items => trivial
      | member members name => trivial

theorem deliver_inString
    (v : Json)
    (stack : List Frame) :
    (deliver v stack).mode.inString = false := by
  cases stack with
  | nil => rfl
  | cons frame rest =>
      cases frame with
      | item items => rfl
      | member members name => rfl

theorem letters_true :
    ∀ c ∈ [114, 117, 101], letter c = true := by
  decide

theorem letters_false :
    ∀ c ∈ [97, 108, 115, 101], letter c = true := by
  decide

theorem letters_null :
    ∀ c ∈ [117, 108, 108], letter c = true := by
  decide

theorem opens_sound
    {mode : Mode}
    (h : Opens b mode) :
    mode.Sound ∧ Syntactic b := by
  cases h with
  | litTrue => exact ⟨letters_true, by decide⟩
  | litFalse => exact ⟨letters_false, by decide⟩
  | litNull => exact ⟨letters_null, by decide⟩
  | digit hDigit =>
      exact ⟨trivial, syntactic_of_digit b hDigit⟩
  | _ => exact ⟨trivial, by decide⟩

theorem beginValue_sound
    {stack : List Frame}
    (h : beginValue limit stack b = some t) :
    t.mode.Sound ∧ Syntactic b := by
  rcases beginValue_opens h with ⟨mode, rfl, hOpens⟩
  exact opens_sound hOpens

theorem endValue_sound
    (h : endValue s b = some t) :
    t.mode.Sound ∧ Syntactic b := by
  rcases s with ⟨mode, stack⟩
  cases mode with
  | done v =>
      simp only [endValue] at h
      split_ifs at h with hSpace
      cases h
      exact ⟨trivial, syntactic_of_space b hSpace⟩
  | afterItem items =>
      simp only [endValue] at h
      split_ifs at h with hSpace hComma hBracket
      · cases h
        exact ⟨trivial, syntactic_of_space b hSpace⟩
      · cases h
        exact ⟨trivial, by subst hComma; decide⟩
      · cases h
        exact ⟨deliver_sound _ _, by subst hBracket; decide⟩
  | afterMember members =>
      simp only [endValue] at h
      split_ifs at h with hSpace hComma hBrace
      · cases h
        exact ⟨trivial, syntactic_of_space b hSpace⟩
      · cases h
        exact ⟨trivial, by subst hComma; decide⟩
      · cases h
        exact ⟨deliver_sound _ _, by subst hBrace; decide⟩
  | _ => cases h

/-
  Literals keep to letters, and outside of strings a step
  takes a byte of the syntax only.
-/
theorem step_sound
    (hSound : s.mode.Sound)
    (h : step limit s b = some t) :
    t.mode.Sound ∧
      (s.mode.inString = false → Syntactic b) := by
  rcases s with ⟨mode, stack⟩
  cases mode with
  | value =>
      simp only [step] at h
      split_ifs at h with hSpace
      · cases h
        exact ⟨trivial, fun _ => syntactic_of_space b hSpace⟩
      · have hBegin := beginValue_sound h
        exact ⟨hBegin.1, fun _ => hBegin.2⟩
  | firstItem =>
      simp only [step] at h
      split_ifs at h with hSpace hBracket
      · cases h
        exact ⟨trivial, fun _ => syntactic_of_space b hSpace⟩
      · cases h
        exact
          ⟨deliver_sound _ _,
            fun _ => by subst hBracket; decide⟩
      · have hBegin := beginValue_sound h
        exact ⟨hBegin.1, fun _ => hBegin.2⟩
  | firstName =>
      simp only [step] at h
      split_ifs at h with hSpace hQuote hBrace
      · cases h
        exact ⟨trivial, fun _ => syntactic_of_space b hSpace⟩
      · cases h
        exact ⟨trivial, fun _ => by subst hQuote; decide⟩
      · cases h
        exact
          ⟨deliver_sound _ _, fun _ => by subst hBrace; decide⟩
  | name members =>
      simp only [step] at h
      split_ifs at h with hSpace hQuote
      · cases h
        exact ⟨trivial, fun _ => syntactic_of_space b hSpace⟩
      · cases h
        exact ⟨trivial, fun _ => by subst hQuote; decide⟩
  | colon members name =>
      simp only [step] at h
      split_ifs at h with hSpace hColon
      · cases h
        exact ⟨trivial, fun _ => syntactic_of_space b hSpace⟩
      · cases h
        exact ⟨trivial, fun _ => by subst hColon; decide⟩
  | lit rest v =>
      cases rest with
      | nil => cases h
      | cons c more =>
          simp only [step] at h
          split_ifs at h with hEq
          have hLetter := hSound c List.mem_cons_self
          have hByte := (syntactic_of_letter c hLetter).1
          refine ⟨?_, fun _ => hEq ▸ hByte⟩
          cases more with
          | nil =>
              cases h
              exact deliver_sound _ _
          | cons d more =>
              cases h
              intro e hMem
              exact hSound e (List.mem_cons_of_mem c hMem)
  | num pc lexeme =>
      simp only [step] at h
      cases hNext : numNext pc b with
      | some next =>
          rw [hNext] at h
          cases h
          have hByte :=
            syntactic_of_numNext pc b (by simp [hNext])
          exact ⟨trivial, fun _ => hByte⟩
      | none =>
          rw [hNext] at h
          simp only at h
          split_ifs at h
          have hEnd := endValue_sound h
          exact ⟨hEnd.1, fun _ => hEnd.2⟩
  | str owner text pc =>
      refine ⟨?_, fun hOutside => by cases hOutside⟩
      simp only [step] at h
      split_ifs at h
      · cases h
        cases owner with
        | none => exact deliver_sound _ _
        | some members => trivial
      · rcases Option.map_eq_some_iff.mp h with ⟨r, _, hEq⟩
        cases hEq
        trivial
  | afterItem items =>
      have hStep :
          endValue { mode := .afterItem items, stack := stack } b =
            some t :=
        h
      have hEnd := endValue_sound hStep
      exact ⟨hEnd.1, fun _ => hEnd.2⟩
  | afterMember members =>
      have hStep :
          endValue { mode := .afterMember members, stack := stack } b =
            some t :=
        h
      have hEnd := endValue_sound hStep
      exact ⟨hEnd.1, fun _ => hEnd.2⟩
  | done v =>
      have hStep :
          endValue { mode := .done v, stack := stack } b =
            some t :=
        h
      have hEnd := endValue_sound hStep
      exact ⟨hEnd.1, fun _ => hEnd.2⟩

end Json

------------------------------------------------------------
-- Compacting Does Not Change The Value
------------------------------------------------------------

namespace Json

variable {s t u : State}
variable {b : UInt8}
variable {limit : Option Nat}

/-
  The states of readers of which the first has not seen yet
  that a number is over.
-/
inductive Lags :
    State → State → Prop
| same
    (s : State) :
    Lags s s
| number
    {pc : NumPc}
    (lexeme : List UInt8)
    (stack : List Frame)
    (hFinal : pc.final = true) :
    Lags { mode := .num pc lexeme, stack := stack }
      (deliver (.num lexeme) stack)

theorem finish_deliver
    (lexeme : List UInt8)
    (stack : List Frame) :
    finish (deliver (.num lexeme) stack) =
      if stack.isEmpty then some (.num lexeme) else none := by
  cases stack with
  | nil => rfl
  | cons frame rest =>
      cases frame with
      | item items => simp [deliver, finish]
      | member members name => simp [deliver, finish]

theorem Lags.finish_eq
    (h : Lags t s) :
    finish t = finish s := by
  cases h with
  | same => rfl
  | number lexeme stack hFinal =>
      rw [finish_deliver]
      simp [finish, hFinal]

/- In a string nothing lags behind. -/
theorem Lags.eq_of_inString
    (h : Lags t s)
    (hString : s.mode.inString = true) :
    t = s := by
  cases h with
  | same => rfl
  | number lexeme stack _ =>
      rw [deliver_inString] at hString
      cases hString

theorem Lags.outside
    (h : Lags t s)
    (hOutside : t.mode.inString = false) :
    s.mode.inString = false := by
  cases h with
  | same => exact hOutside
  | number lexeme stack _ => exact deliver_inString _ _

theorem ends_of_endValue
    (h : endValue s b = some t)
    (hSpace : space b = false) :
    Ends b := by
  rcases s with ⟨mode, stack⟩
  cases mode with
  | done v =>
      simp [endValue, hSpace] at h
  | afterItem items =>
      simp only [endValue, hSpace, Bool.false_eq_true,
        if_false] at h
      split_ifs at h with hComma hBracket
      · exact hComma ▸ ends_comma
      · exact hBracket ▸ ends_bracket
  | afterMember members =>
      simp only [endValue, hSpace, Bool.false_eq_true,
        if_false] at h
      split_ifs at h with hComma hBrace
      · exact hComma ▸ ends_comma
      · exact hBrace ▸ ends_brace
  | _ => cases h

/- A byte that is no whitespace lets the reader catch up. -/
theorem Lags.step
    (h : Lags t s)
    (hByte : space b = false ∨ s.mode.inString = true)
    (hStep : step limit s b = some u) :
    Json.step none t b = some u := by
  cases h with
  | same => exact step_unlimited hStep
  | number lexeme stack hFinal =>
      rw [step_deliver] at hStep
      have hSpace : space b = false := by
        rcases hByte with hSpace | hString
        · exact hSpace
        · rw [deliver_inString] at hString
          cases hString
      have hEnds := ends_of_endValue hStep hSpace
      simp only [Json.step, hEnds _, hFinal, if_true]
      exact hStep

/- Whitespace may end a number, and changes nothing else. -/
theorem step_space
    (hSound : s.mode.Sound)
    (hOutside : s.mode.inString = false)
    (hSpace : space b = true)
    (h : step limit s b = some u) :
    Lags s u := by
  rcases s with ⟨mode, stack⟩
  cases mode with
  | lit rest v =>
      cases rest with
      | nil => cases h
      | cons c more =>
          simp only [step] at h
          split_ifs at h with hEq
          have hLetter := hSound c List.mem_cons_self
          rw [← hEq] at hLetter
          rw [(syntactic_of_letter b hLetter).2] at hSpace
          cases hSpace
  | num pc lexeme =>
      simp only [step, ends_of_space b hSpace pc] at h
      split_ifs at h with hFinal
      rw [endValue_space _ _ hSpace] at h
      cases h
      exact .number lexeme stack hFinal
  | str owner text pc => cases hOutside
  | _ =>
      simp only [step, endValue, hSpace, if_true] at h
      cases h
      exact .same _

theorem Lags.space
    (h : Lags t s)
    (hSound : s.mode.Sound)
    (hOutside : s.mode.inString = false)
    (hSpace : Json.space b = true)
    (hStep : Json.step limit s b = some u) :
    Lags t u := by
  cases h with
  | same => exact step_space hSound hOutside hSpace hStep
  | number lexeme stack hFinal =>
      rw [step_deliver, endValue_space _ _ hSpace] at hStep
      cases hStep
      exact .number lexeme stack hFinal

theorem html_cases
    (hHtml : html b = true) :
    b = 60 ∨ b = 62 ∨ b = 38 := by
  simpa [html, or_assoc] using hHtml

theorem html_ascii
    (b : UInt8)
    (hHtml : html b = true) :
    b < 128 ∧ b.toNat < 0xD800 := by
  rcases html_cases hHtml with rfl | rfl | rfl
  · decide
  · decide
  · decide

theorem hexDigit_of_high
    (hHigh : 128 ≤ b) :
    hexDigit b = none := by
  have hAbove : ∀ n : UInt8, n < 128 → ¬ b ≤ n := by
    intro n hLow
    exact UInt8.not_le.mpr (UInt8.lt_of_lt_of_le hLow hHigh)
  have hDigit : digit b = false := by
    simp [digit, hAbove 57 (by decide)]
  simp [hexDigit, hDigit, hAbove 102 (by decide),
    hAbove 70 (by decide)]

theorem loose_spec
    (b : UInt8)
    (hLoose : html b = true ∨ 128 ≤ b) :
    Plain b ∧ b ≠ 117 ∧ shortEscape b = none ∧
      hexDigit b = none := by
  rcases hLoose with hHtml | hHigh
  · rcases html_cases hHtml with rfl | rfl | rfl
    · decide
    · decide
    · decide
  · have hHex := hexDigit_of_high hHigh
    grind [Plain, shortEscape]

/- A byte that belongs to no syntax is one of a string. -/
theorem step_loose
    (hSound : s.mode.Sound)
    (hLoose : html b = true ∨ 128 ≤ b)
    (h : step limit s b = some u) :
    ∃ owner text high stack,
      s =
          { mode := .str owner text (.plain high)
            stack := stack } ∧
        u =
          { mode := .str owner (text ++ [b]) (.plain none)
            stack := stack } := by
  rcases loose_spec b hLoose with ⟨hPlain, hUnit, hShort, hHex⟩
  cases hString : s.mode.inString with
  | false =>
      have hByte := (step_sound hSound h).2 hString
      rcases hLoose with hHtml | hHigh
      · rw [hByte.2] at hHtml
        cases hHtml
      · exact absurd hByte.1 (UInt8.not_lt.mpr hHigh)
  | true =>
      rcases s with ⟨mode, stack⟩
      cases mode with
      | str owner text pc =>
          cases pc with
          | plain high =>
              rw [step_plain high hPlain] at h
              cases h
              exact ⟨owner, text, high, stack, rfl, rfl⟩
          | escape high =>
              simp [step, StrPc.isPlain, strNext, hUnit, hShort]
                at h
          | hex high digits code =>
              simp [step, StrPc.isPlain, strNext, hHex] at h
      | _ => cases hString

/- The bytes of a separator, and its number. -/
theorem separator_spec
    {text : List UInt8}
    {n : Nat}
    (h : separator text = some n) :
    ∃ b c d rest,
      text = b :: c :: d :: rest ∧ n < 0xD800 ∧
        String.utf8EncodeChar (.ofNat n) = [b, c, d] ∧
          128 ≤ b ∧ PlainText [c, d] := by
  unfold separator at h
  split at h
  · cases h
    exact ⟨_, _, _, _, rfl, by decide⟩
  · cases h
    exact ⟨_, _, _, _, rfl, by decide⟩
  · cases h

end Json

------------------------------------------------------------
-- What Compact Texts Denote
------------------------------------------------------------

namespace Json

variable {s t u : State}
variable {limit : Option Nat}
variable {text out : List UInt8}
variable {skip : Nat}

/- The value that a text leads to from some state. -/
def valueFrom
    (limit : Option Nat)
    (s : State)
    (text : List UInt8) :
    Option Json :=
  ((reader limit).exec s text).bind finish

theorem valueFrom_cons
    {b : UInt8}
    {rest : List UInt8}
    (h : step limit s b = some u) :
    valueFrom limit s (b :: rest) = valueFrom limit u rest := by
  have hStep : (reader limit).step s b = some u := h
  simp only [valueFrom, Machine.exec, hStep]
  rfl

theorem valueFrom_append
    {other : List UInt8}
    (h : (reader limit).exec s text = some u) :
    valueFrom limit s (text ++ other) =
      valueFrom limit u other := by
  unfold valueFrom
  cases hOther : (reader limit).exec u other with
  | some v =>
      have hAll :=
        Machine.exec_append.mpr ⟨u, h, hOther⟩
      rw [hAll]
  | none =>
      cases hAll : (reader limit).exec s (text ++ other) with
      | none => rfl
      | some v =>
          rcases Machine.exec_append.mp hAll with
            ⟨w, hFirst, hLast⟩
          rw [h] at hFirst
          cases hFirst
          rw [hOther] at hLast
          cases hLast

/- A text that is compacted is one that can be read. -/
theorem compactFrom_isSome
    (limit : Option Nat)
    (s : State)
    (skip : Nat)
    (text : List UInt8) :
    (compactFrom limit s skip text).isSome =
      (valueFrom limit s text).isSome := by
  induction text generalizing s skip with
  | nil =>
      simp only [compactFrom, valueFrom, Machine.exec_nil,
        Option.bind_some]
      cases finish s with
      | none => rfl
      | some v => rfl
  | cons b rest ih =>
      cases hStep : step limit s b with
      | none =>
          have hNone : (reader limit).step s b = none := hStep
          simp [compactFrom, valueFrom, Machine.exec, hStep,
            hNone]
      | some t =>
          rw [valueFrom_cons hStep]
          cases skip with
          | zero => simp [compactFrom, hStep, ih]
          | succ n => simp [compactFrom, hStep, ih]

/- A separator, a byte of HTML, a blank, or any other byte. -/
theorem compactByte_cases
    (s : State)
    (b : UInt8)
    (rest : List UInt8) :
    (∃ n,
        separator (b :: rest) = some n ∧
          compactByte s b rest = (unicodeEscape n, 2)) ∨
      (html b = true ∧
          compactByte s b rest =
            (unicodeEscape b.toNat, 0)) ∨
        (space b = true ∧ s.mode.inString = false ∧
            compactByte s b rest = ([], 0)) ∨
          ((space b = false ∨ s.mode.inString = true) ∧
            compactByte s b rest = ([b], 0)) := by
  cases hSeparator : separator (b :: rest) with
  | some n =>
      exact Or.inl ⟨n, rfl, by simp [compactByte, hSeparator]⟩
  | none =>
      apply Or.inr
      cases hHtml : html b with
      | true =>
          exact
            Or.inl
              ⟨rfl, by simp [compactByte, hSeparator, hHtml]⟩
      | false =>
          apply Or.inr
          cases hSpace : space b with
          | false =>
              exact
                Or.inr
                  ⟨Or.inl rfl,
                    by simp [compactByte, hSeparator, hHtml,
                      hSpace]⟩
          | true =>
              cases hString : s.mode.inString with
              | false =>
                  exact
                    Or.inl
                      ⟨rfl, rfl,
                        by simp [compactByte, hSeparator,
                          hHtml, hSpace, hString]⟩
              | true =>
                  exact
                    Or.inr
                      ⟨Or.inr rfl,
                        by simp [compactByte, hSeparator,
                          hHtml, hSpace, hString]⟩

/-
  Reading what is written for a byte, a reader that lags
  behind comes to where the bytes written with it lead.
-/
theorem exec_compactByte
    {b : UInt8}
    (rest : List UInt8)
    (hSound : s.mode.Sound)
    (hLags : Lags t s)
    (hStep : step limit s b = some u) :
    ∃ v w,
      (reader none).exec t (compactByte s b rest).1 =
          some v ∧
        (reader limit).exec u
              (rest.take (compactByte s b rest).2) =
            some w ∧
          Lags v w := by
  rcases compactByte_cases s b rest with
    ⟨n, hSeparator, hByte⟩ | ⟨hHtml, hByte⟩ |
      ⟨hSpace, hOutside, hByte⟩ | ⟨hKept, hByte⟩
  · rcases separator_spec hSeparator with
      ⟨b', c, d, more, hText, hUnit, hChar, hHigh, hPlain⟩
    cases hText
    rcases step_loose hSound (Or.inr hHigh) hStep with
      ⟨owner, name, high, stack, rfl, rfl⟩
    cases hLags.eq_of_inString rfl
    have hWritten :
        (reader none).exec
            { mode := .str owner name (.plain high)
              stack := stack } (unicodeEscape n) =
          some _ :=
      exec_unicodeEscape high hUnit
    have hAhead :
        (reader limit).exec
            { mode := .str owner (name ++ [b]) (.plain none)
              stack := stack } [c, d] =
          some _ :=
      exec_plain hPlain
    rw [hByte]
    refine ⟨_, _, hWritten, hAhead, ?_⟩
    rw [hChar, List.append_assoc]
    exact .same _
  · rcases step_loose hSound (Or.inl hHtml) hStep with
      ⟨owner, name, high, stack, rfl, rfl⟩
    cases hLags.eq_of_inString rfl
    have hAscii := html_ascii b hHtml
    have hWritten :
        (reader none).exec
            { mode := .str owner name (.plain high)
              stack := stack } (unicodeEscape b.toNat) =
          some _ :=
      exec_unicodeEscape high hAscii.2
    rw [Utf8.encodeChar_ascii hAscii.1] at hWritten
    rw [hByte]
    exact ⟨_, _, hWritten, rfl, .same _⟩
  · have hAfter := hLags.space hSound hOutside hSpace hStep
    rw [hByte]
    exact ⟨t, u, rfl, rfl, hAfter⟩
  · have hNext := hLags.step hKept hStep
    rw [hByte]
    exact ⟨u, u, exec_byte hNext rfl, rfl, .same u⟩

/-
  Compacting keeps the value. A reader of the compact text
  lags behind by at most the end of a number, apart from the
  bytes that have been written ahead.
-/
theorem valueFrom_compact
    (hSound : s.mode.Sound)
    (hSkip :
      (reader limit).exec s (text.take skip) = some u)
    (hLags : Lags t u)
    (h : compactFrom limit s skip text = some out) :
    valueFrom none t out = valueFrom limit s text := by
  induction text generalizing s t u skip out with
  | nil =>
      have hEq : s = u := by simpa using hSkip
      subst hEq
      simp only [compactFrom] at h
      split_ifs at h
      cases h
      exact hLags.finish_eq
  | cons b rest ih =>
      cases hStep : step limit s b with
      | none => simp [compactFrom, hStep] at h
      | some next =>
          have hNext := step_sound hSound hStep
          rw [valueFrom_cons hStep]
          cases skip with
          | succ n =>
              simp only [compactFrom, hStep] at h
              rw [List.take_succ_cons] at hSkip
              rcases Machine.exec_cons.mp hSkip with
                ⟨v, hFirst, hRest⟩
              cases hStep.symm.trans hFirst
              exact ih hNext.1 hRest hLags h
          | zero =>
              have hEq : s = u := by simpa using hSkip
              subst hEq
              simp only [compactFrom, hStep] at h
              rcases Option.map_eq_some_iff.mp h with
                ⟨more, hMore, hOut⟩
              subst hOut
              rcases exec_compactByte rest hSound hLags hStep
                with ⟨v, w, hWritten, hAhead, hAfter⟩
              rw [valueFrom_append hWritten]
              exact ih hNext.1 hAhead hAfter hMore

theorem compact_isSome
    (limit : Option Nat)
    (text : List UInt8) :
    (compact limit text).isSome = (read limit text).isSome :=
  compactFrom_isSome limit start 0 text

/- The compact text of a value reads as the value. -/
theorem read_compact
    (h : compact limit text = some out) :
    read none out = read limit text :=
  valueFrom_compact trivial rfl (.same start) h

end Json

------------------------------------------------------------
-- Compact Texts In UTF-8
------------------------------------------------------------

namespace Json

open Utf8

variable {s : State}
variable {limit : Option Nat}
variable {text out : List UInt8}
variable {skip : Nat}

theorem hexByte_ascii
    {d : Nat}
    (hDigit : d < 16) :
    hexByte d < 128 := by
  revert d
  decide

theorem unicodeEscape_ascii
    (u : Nat) :
    ∀ b ∈ unicodeEscape u, b < 128 := by
  intro b hMem
  simp only [unicodeEscape, List.mem_cons, List.not_mem_nil,
    or_false] at hMem
  rcases hMem with rfl | rfl | rfl | rfl | rfl | rfl
  · decide
  · decide
  · exact hexByte_ascii (by omega)
  · exact hexByte_ascii (by omega)
  · exact hexByte_ascii (by omega)
  · exact hexByte_ascii (by omega)

/- An escape sequence belongs to no character around it. -/
theorem valid_append_escape
    (bs cs : List UInt8)
    (u : Nat) :
    Valid (bs ++ (unicodeEscape u ++ cs)) ↔
      Valid bs ∧ Valid cs := by
  have hAscii := unicodeEscape_ascii u
  have hSplit :
      bs ++ (unicodeEscape u ++ cs) =
        bs ++ 92 :: ((unicodeEscape u).tail ++ cs) := rfl
  rw [hSplit, valid_append_ascii (by decide),
    valid_ascii_append
      (fun b hMem => hAscii b (List.mem_of_mem_tail hMem))]

/- Outside of strings the next byte written is ASCII. -/
theorem valid_append_compact
    (bs : List UInt8)
    (hSound : s.mode.Sound)
    (hOutside : s.mode.inString = false)
    (h : compactFrom limit s 0 text = some out) :
    Valid (bs ++ out) ↔ Valid bs ∧ Valid out := by
  induction text generalizing s out with
  | nil =>
      simp only [compactFrom] at h
      split_ifs at h
      cases h
      simp [valid_nil]
  | cons b rest ih =>
      cases hStep : step limit s b with
      | none => simp [compactFrom, hStep] at h
      | some next =>
          simp only [compactFrom, hStep] at h
          rcases Option.map_eq_some_iff.mp h with
            ⟨more, hMore, hOut⟩
          subst hOut
          have hNext := step_sound hSound hStep
          have hByte := hNext.2 hOutside
          rcases compactByte_cases s b rest with
            ⟨n, hSeparator, hEq⟩ | ⟨hHtml, _⟩ |
              ⟨hSpace, _, hEq⟩ | ⟨_, hEq⟩
          · rw [hEq, valid_append_escape,
              valid_ascii_append (unicodeEscape_ascii n)]
          · rw [hByte.2] at hHtml
            cases hHtml
          · rw [hEq] at hMore ⊢
            have hAfter :=
              step_space hSound hOutside hSpace hStep
            exact ih hNext.1 (hAfter.outside hOutside) hMore
          · rw [hEq]
            change Valid (bs ++ b :: more) ↔
              Valid bs ∧ Valid (b :: more)
            rw [valid_append_ascii hByte.1,
              valid_cons_ascii hByte.1]

/- What has been written ahead of the text is UTF-8, too. -/
theorem valid_compactFrom
    (bs : List UInt8)
    (hSound : s.mode.Sound)
    (h : compactFrom limit s skip text = some out) :
    Valid (bs ++ out) ↔ Valid (bs ++ text.drop skip) := by
  induction text generalizing s skip out bs with
  | nil =>
      simp only [compactFrom] at h
      split_ifs at h
      cases h
      simp
  | cons b rest ih =>
      cases hStep : step limit s b with
      | none => simp [compactFrom, hStep] at h
      | some next =>
          have hNext := step_sound hSound hStep
          cases skip with
          | succ n =>
              simp only [compactFrom, hStep] at h
              exact ih bs hNext.1 h
          | zero =>
              simp only [compactFrom, hStep] at h
              rcases Option.map_eq_some_iff.mp h with
                ⟨more, hMore, hOut⟩
              subst hOut
              rw [List.drop_zero]
              rcases compactByte_cases s b rest with
                ⟨n, hSeparator, hEq⟩ | ⟨hHtml, hEq⟩ |
                  ⟨hSpace, hOutside, hEq⟩ | ⟨_, hEq⟩
              · rcases separator_spec hSeparator with
                  ⟨b', c, d, tail, hText, _, hChar, _, _⟩
                cases hText
                rw [hEq] at hMore ⊢
                have hRest := ih [] hNext.1 hMore
                have hSplit :
                    bs ++ b :: c :: d :: tail =
                      bs ++
                        (String.utf8EncodeChar (.ofNat n) ++
                          tail) := by
                  rw [hChar]
                  rfl
                rw [valid_append_escape, hSplit,
                  valid_append_char]
                exact and_congr_right (fun _ => hRest)
              · rw [hEq] at hMore ⊢
                have hRest := ih [] hNext.1 hMore
                rw [valid_append_escape,
                  valid_append_ascii (html_ascii b hHtml).1]
                exact and_congr_right (fun _ => hRest)
              · rw [hEq] at hMore ⊢
                have hByte := hNext.2 hOutside
                have hAfter :=
                  step_space hSound hOutside hSpace hStep
                have hRest := ih [] hNext.1 hMore
                rw [valid_append_ascii hByte.1]
                change Valid (bs ++ more) ↔ _
                rw [valid_append_compact bs hNext.1
                  (hAfter.outside hOutside) hMore]
                exact and_congr_right (fun _ => hRest)
              · rw [hEq] at hMore ⊢
                have hRest := ih (bs ++ [b]) hNext.1 hMore
                rw [List.append_assoc, List.append_assoc]
                  at hRest
                exact hRest

/- A compact text is UTF-8 if the text is. -/
theorem valid_compact_iff
    (h : compact limit text = some out) :
    Valid out ↔ Valid text :=
  @valid_compactFrom start limit text out 0 [] trivial h

end Json

------------------------------------------------------------
-- What Objects Denote
------------------------------------------------------------

namespace Json

variable {limit : Option Nat}
variable {stack : List Frame}

/- A name and a text, and the member that they make. -/
def Makes
    (part : List Char × List UInt8)
    (member : List UInt8 × Json) :
    Prop :=
  member.1 = Utf8.encode part.1 ∧
    read none part.2 = some member.2

/- A name between its quotes, and the colon. -/
theorem exec_quotedName
    (members : Members)
    (name : List Char) :
    (reader none).exec
        { mode := .str (some members) [] (.plain none)
          stack := stack }
        ((name.flatMap quoteChar ++ [34]) ++ [58]) =
      some
        { mode := .value
          stack :=
            .member members (Utf8.encode name) :: stack } :=
  exec_then (exec_quote name) (exec_byte rfl rfl)

/- The members from a name on, with the closing brace. -/
theorem exec_parts
    {part : List Char × List UInt8}
    {parts : List (List Char × List UInt8)}
    {member : List UInt8 × Json}
    {members : Members}
    (done : Members)
    (hPart : Makes part member)
    (hParts : List.Forall₂ Makes parts members) :
    (reader none).exec
        { mode := .str (some done) [] (.plain none)
          stack := stack }
        (part.1.flatMap quoteChar ++ 34 :: 58 ::
          (part.2 ++ (moreText parts ++ [125]))) =
      some
        (deliver (.obj (done ++ member :: members)) stack) := by
  induction hParts generalizing part member done with
  | nil =>
      rcases part with ⟨name, text⟩
      rcases member with ⟨bytes, v⟩
      rcases hPart with ⟨rfl, hRead⟩
      have hValue :
          (reader none).exec
              { mode := .value
                stack :=
                  .member done (Utf8.encode name) :: stack }
              (text ++ [125]) =
            some
              (deliver (.obj (done ++ [(Utf8.encode name, v)]))
                stack) :=
        exec_value hRead ends_brace rfl
      have hSplit :
          name.flatMap quoteChar ++ 34 :: 58 ::
              (text ++ (moreText [] ++ [125])) =
            ((name.flatMap quoteChar ++ [34]) ++ [58]) ++
              (text ++ [125]) := by
        simp [moreText]
      rw [hSplit]
      exact exec_then (exec_quotedName done name) hValue
  | @cons next other rest others hNext _ ih =>
      rcases part with ⟨name, text⟩
      rcases member with ⟨bytes, v⟩
      rcases hPart with ⟨rfl, hRead⟩
      have hValue :
          (reader none).exec
              { mode := .value
                stack :=
                  .member done (Utf8.encode name) :: stack }
              (text ++ [44]) =
            some
              { mode := .name (done ++ [(Utf8.encode name, v)])
                stack := stack } :=
        exec_value hRead ends_comma rfl
      have hRest := ih (done ++ [(Utf8.encode name, v)]) hNext
      have hSplit :
          name.flatMap quoteChar ++ 34 :: 58 ::
              (text ++ (moreText (next :: rest) ++ [125])) =
            ((name.flatMap quoteChar ++ [34]) ++ [58]) ++
              ((text ++ [44]) ++
                34 ::
                  (next.1.flatMap quoteChar ++ 34 :: 58 ::
                    (next.2 ++ (moreText rest ++ [125])))) := by
        simp [moreText, quote]
      have hJoin :
          done ++ (Utf8.encode name, v) :: other :: others =
            (done ++ [(Utf8.encode name, v)]) ++
              other :: others := by
        simp
      rw [hSplit, hJoin]
      exact
        exec_then (exec_quotedName done name)
          (exec_then hValue (exec_byte rfl hRest))

theorem read_objectText
    {parts : List (List Char × List UInt8)}
    {members : Members}
    (hParts : List.Forall₂ Makes parts members) :
    read none (objectText parts ++ [10]) =
      some (.obj members) := by
  cases hParts with
  | nil => rfl
  | @cons part member rest others hPart hRest =>
      rcases part with ⟨name, text⟩
      have hExec :
          (reader none).exec
              { mode := .str (some []) [] (.plain none)
                stack := [] }
              (name.flatMap quoteChar ++ 34 :: 58 ::
                (text ++ (moreText rest ++ [125]))) =
            some _ :=
        exec_parts [] hPart hRest
      have hSplit :
          objectText ((name, text) :: rest) ++ [10] =
            (123 :: 34 ::
              (name.flatMap quoteChar ++ 34 :: 58 ::
                (text ++ (moreText rest ++ [125])))) ++
              [10] := by
        simp [objectText, quote]
      have hObject :
          (reader none).exec start
              (123 :: 34 ::
                (name.flatMap quoteChar ++ 34 :: 58 ::
                  (text ++ (moreText rest ++ [125])))) =
            some (deliver (.obj (member :: others)) []) :=
        exec_byte rfl (exec_byte rfl hExec)
      have hAll :
          (reader none).exec start
              (objectText ((name, text) :: rest) ++ [10]) =
            some (deliver (.obj (member :: others)) []) := by
        rw [hSplit]
        exact exec_then hObject (exec_byte rfl rfl)
      unfold read
      rw [hAll]
      rfl

end Json

------------------------------------------------------------
-- Objects In UTF-8
------------------------------------------------------------

namespace Json

open Utf8

variable {limit : Option Nat}

theorem valid_quoteChar
    (c : Char) :
    Valid (quoteChar c) := by
  cases hShort : shortName c.toNat with
  | some b =>
      have hAscii := (shortName_spec hShort).2.1
      have hQuote : quoteChar c = [92, b] := by
        simp [quoteChar, hShort]
      rw [hQuote, valid_cons_ascii (by decide)]
      exact valid_singleton hAscii
  | none =>
      cases hNumber : numbered c.toNat with
      | true =>
          have hQuote : quoteChar c = unicodeEscape c.toNat := by
            simp [quoteChar, hShort, hNumber]
          rw [hQuote]
          exact valid_of_ascii (unicodeEscape_ascii _)
      | false =>
          have hQuote :
              quoteChar c = String.utf8EncodeChar c := by
            simp [quoteChar, hShort, hNumber]
          exact ⟨[c], by simp [hQuote]⟩

theorem valid_quote
    (name : List Char) :
    Valid (quote name) := by
  unfold quote
  rw [valid_cons_ascii (by decide),
    valid_append_last _ (by decide)]
  induction name with
  | nil => exact valid_nil
  | cons c name ih =>
      rw [List.flatMap_cons]
      exact (valid_quoteChar c).append ih

theorem valid_append_more
    (bs : List UInt8)
    (parts : List (List Char × List UInt8)) :
    Valid (bs ++ moreText parts) ↔
      Valid bs ∧ Valid (moreText parts) := by
  cases parts with
  | nil => simp [moreText, valid_nil]
  | cons part rest =>
      rw [moreText, valid_append_ascii (by decide),
        valid_cons_ascii (b := 44) (by decide)]

/- A name, its value, and whatever follows. -/
theorem valid_part
    (name : List Char)
    (text : List UInt8)
    (rest : List (List Char × List UInt8)) :
    Valid (quote name ++ 58 :: (text ++ moreText rest)) ↔
      Valid text ∧ Valid (moreText rest) := by
  rw [valid_append_ascii (by decide), valid_append_more]
  exact and_iff_right (valid_quote name)

theorem valid_moreText_iff
    (parts : List (List Char × List UInt8)) :
    Valid (moreText parts) ↔ ∀ part ∈ parts, Valid part.2 := by
  induction parts with
  | nil => simp [moreText, valid_nil]
  | cons part rest ih =>
      rw [moreText, valid_cons_ascii (by decide), valid_part,
        ih, List.forall_mem_cons]

/- An object is UTF-8 if the texts of its values are. -/
theorem valid_objectText_iff
    (parts : List (List Char × List UInt8)) :
    Valid (objectText parts ++ [10]) ↔
      ∀ part ∈ parts, Valid part.2 := by
  rw [valid_append_last _ (by decide)]
  cases parts with
  | nil =>
      simpa using @valid_of_ascii (objectText []) (by decide)
  | cons part rest =>
      have hSplit :
          objectText (part :: rest) =
            123 ::
              ((quote part.1 ++
                  58 :: (part.2 ++ moreText rest)) ++
                [125]) := by
        simp [objectText]
      rw [hSplit, valid_cons_ascii (by decide),
        valid_append_last _ (by decide), valid_part,
        valid_moreText_iff, List.forall_mem_cons]

end Json

------------------------------------------------------------
-- Maps Of Texts
------------------------------------------------------------

namespace Json

open Utf8

variable {limit : Option Nat}
variable {out : List UInt8}

abbrev Messages :=
  List (List Char × Option (List UInt8))

/- A member of an object carries this text. -/
def Carries
    (limit : Option Nat)
    (message : List Char × Option (List UInt8))
    (member : List UInt8 × Json) :
    Prop :=
  member.1 = encode message.1 ∧
    read limit (marshalRaw message.2) = some member.2

theorem compactAll_isSome
    (limit : Option Nat)
    (messages : Messages) :
    (compactAll limit messages).isSome ↔
      ∀ m ∈ messages,
        (read limit (marshalRaw m.2)).isSome := by
  induction messages with
  | nil => simp [compactAll]
  | cons m rest ih =>
      rcases m with ⟨name, message⟩
      rw [List.forall_mem_cons, ← ih, ← compact_isSome]
      cases hText : compact limit (marshalRaw message) with
      | none => simp [compactAll, hText]
      | some text =>
          cases hMore : compactAll limit rest with
          | none => simp [compactAll, hText, hMore]
          | some more => simp [compactAll, hText, hMore]

theorem compactAll_cons
    {m : List Char × Option (List UInt8)}
    {rest : Messages}
    {parts : List (List Char × List UInt8)}
    (h : compactAll limit (m :: rest) = some parts) :
    ∃ text more,
      parts = (m.1, text) :: more ∧
        compact limit (marshalRaw m.2) = some text ∧
          compactAll limit rest = some more := by
  rcases m with ⟨name, message⟩
  cases hText : compact limit (marshalRaw message) with
  | none => simp [compactAll, hText] at h
  | some text =>
      cases hMore : compactAll limit rest with
      | none => simp [compactAll, hText, hMore] at h
      | some more =>
          simp only [compactAll, hText, hMore,
            Option.some.injEq] at h
          exact ⟨text, more, h.symm, rfl, rfl⟩

/- Each text makes the member that carries it. -/
theorem carries_of_compactAll
    {messages : Messages}
    {parts : List (List Char × List UInt8)}
    (h : compactAll limit messages = some parts) :
    ∃ members,
      List.Forall₂ Makes parts members ∧
        List.Forall₂ (Carries limit) messages members := by
  induction messages generalizing parts with
  | nil =>
      cases h
      exact ⟨[], .nil, .nil⟩
  | cons m rest ih =>
      rcases compactAll_cons h with
        ⟨text, more, rfl, hText, hMore⟩
      rcases ih hMore with ⟨members, hMakes, hCarries⟩
      have hSome := compact_isSome limit (marshalRaw m.2)
      rw [hText] at hSome
      rcases Option.isSome_iff_exists.mp hSome.symm with
        ⟨v, hRead⟩
      have hSame := (read_compact hText).trans hRead
      exact
        ⟨(encode m.1, v) :: members,
          .cons ⟨rfl, hSame⟩ hMakes,
          .cons ⟨rfl, hRead⟩ hCarries⟩

theorem valid_compactAll
    {messages : Messages}
    {parts : List (List Char × List UInt8)}
    (h : compactAll limit messages = some parts) :
    (∀ part ∈ parts, Valid part.2) ↔
      ∀ m ∈ messages, Valid (marshalRaw m.2) := by
  induction messages generalizing parts with
  | nil =>
      cases h
      simp
  | cons m rest ih =>
      rcases compactAll_cons h with
        ⟨text, more, rfl, hText, hMore⟩
      rw [List.forall_mem_cons, List.forall_mem_cons, ih hMore,
        valid_compact_iff hText]

/- A map is encoded if all its texts can be read. -/
theorem encodeMap_isSome
    (limit : Option Nat)
    (messages : Messages) :
    (encodeMap limit messages).isSome ↔
      ∀ m ∈ messages,
        (read limit (marshalRaw m.2)).isSome := by
  have hSorted := List.perm_insertionSort nameLE messages
  unfold encodeMap
  rw [Option.isSome_map, compactAll_isSome]
  constructor
  · intro h m hMem
    exact h m (hSorted.mem_iff.mpr hMem)
  · intro h m hMem
    exact h m (hSorted.mem_iff.mp hMem)

theorem names_of_carries
    {messages : Messages}
    {members : Members}
    (h : List.Forall₂ (Carries limit) messages members) :
    members.map Prod.fst =
      messages.map (fun m => encode m.1) := by
  induction h with
  | nil => rfl
  | cons hFirst _ ih => simp [hFirst.1, ih]

theorem mem_of_carries
    {messages : Messages}
    {members : Members}
    {m : List Char × Option (List UInt8)}
    (h : List.Forall₂ (Carries limit) messages members)
    (hMem : m ∈ messages) :
    ∃ v,
      (encode m.1, v) ∈ members ∧
        read limit (marshalRaw m.2) = some v := by
  induction h with
  | nil => cases hMem
  | @cons first member rest others hFirst _ ih =>
      rcases member with ⟨name, v⟩
      rcases List.mem_cons.mp hMem with rfl | hRest
      · rcases hFirst with ⟨rfl, hRead⟩
        exact ⟨v, List.mem_cons_self, hRead⟩
      · rcases ih hRest with ⟨w, hOther, hRead⟩
        exact ⟨w, List.mem_cons_of_mem _ hOther, hRead⟩

/-
  The encoded map is an object whose members have the names
  and the values of the texts. It is UTF-8 if all texts are.
-/
theorem read_encodeMap
    {messages : Messages}
    (h : encodeMap limit messages = some out) :
    ∃ members,
      read none out = some (.obj members) ∧
        (members.map Prod.fst).Perm
            (messages.map (fun m => encode m.1)) ∧
          (∀ m ∈ messages,
              ∃ v,
                (encode m.1, v) ∈ members ∧
                  read limit (marshalRaw m.2) = some v) ∧
            (Valid out ↔
              ∀ m ∈ messages, Valid (marshalRaw m.2)) := by
  rcases Option.map_eq_some_iff.mp h with ⟨parts, hParts, rfl⟩
  rcases carries_of_compactAll hParts with
    ⟨members, hMakes, hCarries⟩
  have hSorted := List.perm_insertionSort nameLE messages
  refine ⟨members, read_objectText hMakes, ?_, ?_, ?_⟩
  · rw [names_of_carries hCarries]
    exact hSorted.map _
  · intro m hMem
    exact mem_of_carries hCarries (hSorted.mem_iff.mpr hMem)
  · rw [valid_objectText_iff, valid_compactAll hParts]
    constructor
    · intro hAll m hMem
      exact hAll m (hSorted.mem_iff.mpr hMem)
    · intro hAll m hMem
      exact hAll m (hSorted.mem_iff.mp hMem)

end Json
