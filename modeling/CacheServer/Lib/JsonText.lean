import CacheServer.Lib.JsonSize
import Mathlib.Data.List.Nodup
import Mathlib.Data.List.Perm.Subperm

/-
  JSON texts with every string written as it is.

  Such a text escapes nothing. It denotes its value exactly
  if no string in it needs an escape sequence, and otherwise
  no value with the same parts.

  Key definitions include:
    * `Json.raw`
    * `Json.Literal`
    * `Json.field`

  Key theorems include:
    * `Json.read_raw`
    * `Json.valid_raw_iff`
    * `Json.fields_raw_iff`
-/

------------------------------------------------------------
-- Texts
------------------------------------------------------------

namespace Json

mutual

/- The text of a value without escape sequences. -/
def raw :
    Json → List UInt8
| .null => [110, 117, 108, 108]
| .bool true => [116, 114, 117, 101]
| .bool false => [102, 97, 108, 115, 101]
| .num lexeme => lexeme
| .str text => 34 :: (text ++ [34])
| .arr [] => [91, 93]
| .arr (v :: rest) => 91 :: (v.raw ++ (itemsRaw rest ++ [93]))
| .obj [] => [123, 125]
| .obj ((name, v) :: rest) =>
    123 :: 34 ::
      (name ++ 34 :: 58 ::
        (v.raw ++ (membersRaw rest ++ [125])))

/- Items, each with the comma before it. -/
def itemsRaw :
    List Json → List UInt8
| [] => []
| v :: rest => 44 :: (v.raw ++ itemsRaw rest)

def membersRaw :
    List (List UInt8 × Json) → List UInt8
| [] => []
| (name, v) :: rest =>
    44 :: 34 ::
      (name ++ 34 :: 58 :: (v.raw ++ membersRaw rest))

end

mutual

/- The texts of all numbers in the value. -/
def lexemes :
    Json → List (List UInt8)
| .null => []
| .bool _ => []
| .num lexeme => [lexeme]
| .str _ => []
| .arr items => itemsLexemes items
| .obj members => membersLexemes members

def itemsLexemes :
    List Json → List (List UInt8)
| [] => []
| v :: rest => v.lexemes ++ itemsLexemes rest

def membersLexemes :
    List (List UInt8 × Json) → List (List UInt8)
| [] => []
| (_, v) :: rest => v.lexemes ++ membersLexemes rest

end

/- A number in full. -/
structure Number
    (lexeme : List UInt8) :
    Prop where
  read : read none lexeme = some (.num lexeme)
  head : ∃ b rest, lexeme = b :: rest ∧ (b = 45 ∨ digit b)
  ascii : ∀ b ∈ lexeme, b < 128

/- A text that needs no escape sequence. -/
def Literal
    (text : List UInt8) :
    Prop :=
  Utf8.Valid text ∧ PlainText text

end Json

------------------------------------------------------------
-- Whole Numbers
------------------------------------------------------------

namespace Json

theorem digits_of_nat
    (n : Nat) :
    ∀ b ∈ Utf8.encode (Nat.toDigits 10 n), digit b = true := by
  induction n using Nat.strongRecOn with
  | ind n ih =>
      by_cases hOne : n < 10
      · rcases digitChar_cases hOne with
          ⟨b, hEncode, hDigit, _⟩
        rw [Nat.toDigits_of_lt_base hOne, Utf8.encode_cons,
          hEncode]
        intro c hMem
        rw [List.mem_singleton.mp hMem]
        exact hDigit
      · have hLast : n % 10 < 10 := Nat.mod_lt n (by omega)
        rcases digitChar_cases hLast with
          ⟨b, hEncode, hDigit, _⟩
        rw [Nat.toDigits_of_base_le (by omega) (by omega),
          Utf8.encode_append, Utf8.encode_cons, hEncode]
        intro c hMem
        rcases List.mem_append.mp hMem with hInit | hEnd
        · exact ih (n / 10) (by omega) c hInit
        · rw [List.mem_singleton.mp hEnd]
          exact hDigit

theorem ascii_of_digit
    {b : UInt8}
    (hDigit : digit b = true) :
    b < 128 := by
  simp only [digit, Bool.and_eq_true, decide_eq_true_eq]
    at hDigit
  exact UInt8.lt_of_le_of_lt hDigit.2 (by decide)

theorem number_nat
    (n : Nat) :
    Number (Utf8.encode (Nat.toDigits 10 n)) where
  read := read_nat n
  head := by
    have hDigits := digits_of_nat n
    cases hText : Utf8.encode (Nat.toDigits 10 n) with
    | nil =>
        have hRead := read_nat n
        rw [hText] at hRead
        cases hRead
    | cons b rest =>
        rw [hText] at hDigits
        exact ⟨b, rest, rfl, Or.inr (hDigits b (by simp))⟩
  ascii := fun b hMem => ascii_of_digit (digits_of_nat n b hMem)

theorem number_negative
    (n : Nat) :
    Number (45 :: Utf8.encode (Nat.toDigits 10 n)) where
  read := read_negative n
  head := ⟨45, _, rfl, Or.inl rfl⟩
  ascii := by
    intro b hMem
    rcases List.mem_cons.mp hMem with rfl | hDigit
    · decide
    · exact ascii_of_digit (digits_of_nat n b hDigit)

end Json

------------------------------------------------------------
-- Lengths
------------------------------------------------------------

namespace Json

mutual

/- The text is a shortest one. -/
theorem raw_length :
    (v : Json) → (v.raw.length : Int) = v.size
| .null => rfl
| .bool true => rfl
| .bool false => rfl
| .num _ => rfl
| .str text => by
    simp only [raw, size, List.length_cons,
      List.length_append, List.length_nil]
    omega
| .arr [] => rfl
| .arr (v :: rest) => by
    have hFirst := raw_length v
    have hRest := itemsRaw_length rest
    simp only [raw, size, itemsSize, List.length_cons,
      List.length_append, List.length_nil, List.isEmpty_cons,
      Bool.false_eq_true, if_false]
    push_cast
    omega
| .obj [] => rfl
| .obj ((name, v) :: rest) => by
    have hFirst := raw_length v
    have hRest := membersRaw_length rest
    simp only [raw, size, membersSize, List.length_cons,
      List.length_append, List.length_nil, List.isEmpty_cons,
      Bool.false_eq_true, if_false]
    push_cast
    omega

theorem itemsRaw_length :
    (items : List Json) →
      ((itemsRaw items).length : Int) = itemsSize items
| [] => rfl
| v :: rest => by
    have hFirst := raw_length v
    have hRest := itemsRaw_length rest
    simp only [itemsRaw, itemsSize, List.length_cons,
      List.length_append]
    push_cast
    omega

theorem membersRaw_length :
    (members : List (List UInt8 × Json)) →
      ((membersRaw members).length : Int) = membersSize members
| [] => rfl
| (name, v) :: rest => by
    have hFirst := raw_length v
    have hRest := membersRaw_length rest
    simp only [membersRaw, membersSize, List.length_cons,
      List.length_append]
    push_cast
    omega

end

end Json

------------------------------------------------------------
-- Reading
------------------------------------------------------------

namespace Json

variable {s t : State}
variable {b : UInt8}
variable {stack : List Frame}

/- A text continues where a first part has led. -/
theorem exec_then
    {u : State}
    {text other : List UInt8}
    (hFirst : (reader none).exec s text = some u)
    (hLast : (reader none).exec u other = some t) :
    (reader none).exec s (text ++ other) = some t :=
  Machine.exec_append.mpr ⟨u, hFirst, hLast⟩

theorem exec_byte
    {u : State}
    {text : List UInt8}
    (hFirst : step none s b = some u)
    (hLast : (reader none).exec u text = some t) :
    (reader none).exec s (b :: text) = some t :=
  Machine.exec_cons.mpr ⟨u, hFirst, hLast⟩

/- The byte after a value that has been handed over. -/
theorem exec_delivered
    {v : Json}
    (hEnd : endValue (deliver v stack) b = some t) :
    (reader none).exec (deliver v stack) [b] = some t :=
  exec_byte ((step_deliver none v stack).trans hEnd) rfl

/- A string with both quotes, up to the second one. -/
theorem exec_string
    {owner : Option Members}
    {text : List UInt8}
    (hPlain : PlainText text) :
    (reader none).exec
        { mode := .str owner [] (.plain none), stack := stack }
        (text ++ [34]) =
      some (closeString text stack owner) := by
  have hText :
      (reader none).exec
          { mode := .str owner [] (.plain none)
            stack := stack } text =
        some
          { mode := .str owner ([] ++ text) (.plain none)
            stack := stack } :=
    exec_plain hPlain
  exact exec_then hText (exec_byte (step_close none) rfl)

/- The name of a member, with its quotes and the colon. -/
theorem exec_name
    {members : Members}
    {name : List UInt8}
    (hPlain : PlainText name) :
    (reader none).exec
        { mode := .str (some members) [] (.plain none)
          stack := stack }
        (name ++ [34, 58]) =
      some
        { mode := .value
          stack := .member members name :: stack } := by
  have hSplit : name ++ [34, 58] = (name ++ [34]) ++ [58] := by
    simp
  rw [hSplit]
  exact exec_then (exec_string hPlain) (exec_byte rfl rfl)

/- An array goes on to its first item as to any other. -/
theorem exec_firstItem
    {text : List UInt8}
    (hSpace : space b = false)
    (hEnd : b ≠ 93)
    (h :
      (reader none).exec
          { mode := .value, stack := .item [] :: stack }
          (b :: text) =
        some t) :
    (reader none).exec { mode := .firstItem, stack := stack }
        (b :: text) =
      some t := by
  rcases Machine.exec_cons.mp h with ⟨u, hStep, hRest⟩
  refine exec_byte ?_ hRest
  simpa [reader, step, hSpace, hEnd] using hStep

/- No text of a value starts with whitespace or a bracket. -/
theorem raw_head
    {v : Json}
    (hNumbers : ∀ x ∈ v.lexemes, Number x) :
    ∃ b rest, v.raw = b :: rest ∧ space b = false ∧ b ≠ 93 := by
  cases v with
  | null => exact ⟨_, _, rfl, by decide, by decide⟩
  | bool value =>
      cases value with
      | true => exact ⟨_, _, rfl, by decide, by decide⟩
      | false => exact ⟨_, _, rfl, by decide, by decide⟩
  | num lexeme =>
      rcases (hNumbers lexeme (by simp [lexemes])).head with
        ⟨b, rest, hEq, hFirst⟩
      refine ⟨b, rest, hEq, ?_⟩
      rcases hFirst with rfl | hDigit
      · decide
      · have hOther : ∀ c, digit c = false → b ≠ c := by
          intro c hNot hSame
          rw [hSame, hNot] at hDigit
          cases hDigit
        refine ⟨?_, hOther 93 rfl⟩
        simp [space, hOther 32 rfl, hOther 9 rfl,
          hOther 10 rfl, hOther 13 rfl]
  | str text => exact ⟨_, _, rfl, by decide, by decide⟩
  | arr items =>
      cases items with
      | nil => exact ⟨_, _, rfl, by decide, by decide⟩
      | cons v rest => exact ⟨_, _, rfl, by decide, by decide⟩
  | obj members =>
      cases members with
      | nil => exact ⟨_, _, rfl, by decide, by decide⟩
      | cons member rest =>
          exact ⟨_, _, rfl, by decide, by decide⟩

/- The strings are plain and the numbers are numbers. -/
structure Written
    (texts lexemes : List (List UInt8)) :
    Prop where
  plain : ∀ x ∈ texts, PlainText x
  numbers : ∀ x ∈ lexemes, Number x

theorem Written.left
    {xs ys ls ms : List (List UInt8)}
    (h : Written (xs ++ ys) (ls ++ ms)) :
    Written xs ls :=
  ⟨fun x hMem => h.plain x (List.mem_append_left _ hMem),
    fun x hMem => h.numbers x (List.mem_append_left _ hMem)⟩

theorem Written.right
    {xs ys ls ms : List (List UInt8)}
    (h : Written (xs ++ ys) (ls ++ ms)) :
    Written ys ms :=
  ⟨fun x hMem => h.plain x (List.mem_append_right _ hMem),
    fun x hMem => h.numbers x (List.mem_append_right _ hMem)⟩

theorem Written.tail
    {x : List UInt8}
    {xs ls : List (List UInt8)}
    (h : Written (x :: xs) ls) :
    Written xs ls :=
  ⟨fun y hMem => h.plain y (List.mem_cons_of_mem x hMem),
    h.numbers⟩

def isNum :
    Json → Bool
| .num _ => true
| _ => false

mutual

/- The text of a value that is not a number ends by itself. -/
theorem exec_closed
    (v : Json)
    (stack : List Frame)
    (hWritten : Written v.texts v.lexemes)
    (hClosed : v.isNum = false) :
    (reader none).exec { mode := .value, stack := stack }
        v.raw =
      some (deliver v stack) := by
  match v with
  | .null => rfl
  | .bool true => rfl
  | .bool false => rfl
  | .num _ => cases hClosed
  | .str text =>
      have hText := hWritten.plain text (by simp [texts])
      exact exec_byte rfl (exec_string hText)
  | .arr [] => rfl
  | .arr (w :: rest) =>
      refine exec_byte rfl ?_
      rcases raw_head hWritten.left.numbers with
        ⟨c, more, hRaw, hSpace, hNot⟩
      have hItems := exec_items w rest [] stack hWritten
      rw [hRaw] at hItems ⊢
      exact exec_firstItem hSpace hNot hItems
  | .obj [] => rfl
  | .obj ((name, w) :: rest) =>
      refine exec_byte rfl (exec_byte rfl ?_)
      exact exec_members name w rest [] stack hWritten
termination_by 2 * sizeOf v
decreasing_by
  all_goals simp
  all_goals omega

/- The text reads as its value, up to the next byte. -/
theorem exec_raw
    (v : Json)
    (stack : List Frame)
    {b : UInt8}
    {t : State}
    (hWritten : Written v.texts v.lexemes)
    (hEnds : Ends b)
    (hEnd : endValue (deliver v stack) b = some t) :
    (reader none).exec { mode := .value, stack := stack }
        (v.raw ++ [b]) =
      some t := by
  cases hNum : v.isNum with
  | false =>
      exact
        exec_then (exec_closed v stack hWritten hNum)
          (exec_delivered hEnd)
  | true =>
      cases v with
      | num lexeme =>
          have hNumber :=
            hWritten.numbers lexeme (by simp [lexemes])
          exact exec_value hNumber.read hEnds hEnd
      | _ => cases hNum
termination_by 2 * sizeOf v + 1
decreasing_by
  all_goals simp

/- The items from one on, with the closing bracket. -/
theorem exec_items
    (v : Json)
    (rest : List Json)
    (items : List Json)
    (stack : List Frame)
    (hWritten :
      Written (v.texts ++ itemsTexts rest)
        (v.lexemes ++ itemsLexemes rest)) :
    (reader none).exec
        { mode := .value, stack := .item items :: stack }
        (v.raw ++ (itemsRaw rest ++ [93])) =
      some (deliver (.arr (items ++ v :: rest)) stack) := by
  match rest with
  | [] =>
      exact
        exec_raw v (.item items :: stack) hWritten.left
          ends_bracket rfl
  | w :: more =>
      have hFirst :=
        exec_raw v (.item items :: stack) hWritten.left
          ends_comma rfl
      have hNext :=
        exec_items w more (items ++ [v]) stack hWritten.right
      have hSplit :
          v.raw ++ (itemsRaw (w :: more) ++ [93]) =
            (v.raw ++ [44]) ++
              (w.raw ++ (itemsRaw more ++ [93])) := by
        simp [itemsRaw]
      have hJoin :
          items ++ v :: w :: more =
            items ++ [v] ++ w :: more := by
        simp
      rw [hSplit, hJoin]
      exact exec_then hFirst hNext
termination_by 2 * (sizeOf v + sizeOf rest)
decreasing_by
  all_goals simp
  all_goals omega

/- The members from a name on, with the closing brace. -/
theorem exec_members
    (name : List UInt8)
    (v : Json)
    (rest : Members)
    (members : Members)
    (stack : List Frame)
    (hWritten :
      Written (name :: (v.texts ++ membersTexts rest))
        (v.lexemes ++ membersLexemes rest)) :
    (reader none).exec
        { mode := .str (some members) [] (.plain none)
          stack := stack }
        (name ++ 34 :: 58 ::
          (v.raw ++ (membersRaw rest ++ [125]))) =
      some
        (deliver (.obj (members ++ (name, v) :: rest))
          stack) := by
  have hName :
      (reader none).exec
          { mode := .str (some members) [] (.plain none)
            stack := stack }
          (name ++ [34, 58]) =
        some _ :=
    exec_name (hWritten.plain name (by simp))
  match rest with
  | [] =>
      have hValue :=
        exec_raw v (.member members name :: stack)
          hWritten.tail.left ends_brace rfl
      have hSplit :
          name ++ 34 :: 58 ::
              (v.raw ++ (membersRaw [] ++ [125])) =
            (name ++ [34, 58]) ++ (v.raw ++ [125]) := by
        simp [membersRaw]
      rw [hSplit]
      exact exec_then hName hValue
  | (next, w) :: more =>
      have hValue :=
        exec_raw v (.member members name :: stack)
          hWritten.tail.left ends_comma rfl
      have hNext :=
        exec_members next w more (members ++ [(name, v)]) stack
          hWritten.tail.right
      have hSplit :
          name ++ 34 :: 58 ::
              (v.raw ++
                (membersRaw ((next, w) :: more) ++ [125])) =
            (name ++ [34, 58]) ++
              ((v.raw ++ [44]) ++
                34 ::
                  (next ++ 34 :: 58 ::
                    (w.raw ++ (membersRaw more ++ [125])))) := by
        simp [membersRaw]
      have hJoin :
          members ++ (name, v) :: (next, w) :: more =
            members ++ [(name, v)] ++ (next, w) :: more := by
        simp
      rw [hSplit, hJoin]
      exact
        exec_then hName
          (exec_then hValue (exec_byte rfl hNext))
termination_by 2 * (sizeOf v + sizeOf rest)
decreasing_by
  all_goals simp
  all_goals omega

end

end Json

------------------------------------------------------------
-- Whole Texts
------------------------------------------------------------

namespace Json

variable {v : Json}

/- The text of a value denotes it. -/
theorem read_raw
    (hWritten : Written v.texts v.lexemes) :
    read none v.raw = some v := by
  cases hNum : v.isNum with
  | false =>
      have hExec := exec_closed v [] hWritten hNum
      exact Option.bind_eq_some_iff.mpr ⟨_, hExec, rfl⟩
  | true =>
      cases v with
      | num lexeme =>
          exact (hWritten.numbers lexeme (by simp [lexemes])).read
      | _ => cases hNum

end Json

------------------------------------------------------------
-- UTF-8
------------------------------------------------------------

namespace Json

open Utf8

theorem valid_append_items
    (bs : List UInt8)
    (items : List Json) :
    Valid (bs ++ itemsRaw items) ↔
      Valid bs ∧ Valid (itemsRaw items) := by
  cases items with
  | nil => simp [itemsRaw, valid_nil]
  | cons v rest =>
      rw [itemsRaw, valid_append_ascii (by decide),
        valid_cons_ascii (by decide)]

theorem valid_append_members
    (bs : List UInt8)
    (members : Members) :
    Valid (bs ++ membersRaw members) ↔
      Valid bs ∧ Valid (membersRaw members) := by
  cases members with
  | nil => simp [membersRaw, valid_nil]
  | cons member rest =>
      rw [membersRaw, valid_append_ascii (by decide)]
      rw [valid_cons_ascii (b := 44) (by decide)]

/- A closing byte belongs to no string. -/
theorem valid_append_last
    {b : UInt8}
    (bs : List UInt8)
    (hAscii : b < 128) :
    Valid (bs ++ [b]) ↔ Valid bs := by
  rw [valid_append_ascii hAscii]
  exact and_iff_left valid_nil

/- A name and its value, with whatever follows. -/
theorem valid_member
    (name bs : List UInt8) :
    Valid (name ++ 34 :: 58 :: bs) ↔
      Valid name ∧ Valid bs := by
  rw [valid_append_ascii (by decide),
    valid_cons_ascii (by decide)]

mutual

/- The text is UTF-8 if all its strings are. -/
theorem valid_raw_iff
    (v : Json)
    (hAscii : ∀ l ∈ v.lexemes, ∀ b ∈ l, b < 128) :
    Valid v.raw ↔ ∀ x ∈ v.texts, Valid x := by
  match v with
  | .null =>
      simpa [texts] using
        @valid_of_ascii (raw .null) (by decide)
  | .bool true =>
      simpa [texts] using
        @valid_of_ascii (raw (.bool true)) (by decide)
  | .bool false =>
      simpa [texts] using
        @valid_of_ascii (raw (.bool false)) (by decide)
  | .num lexeme =>
      simpa [texts, raw] using
        valid_of_ascii (hAscii lexeme (by simp [lexemes]))
  | .str text =>
      rw [raw, valid_cons_ascii (by decide),
        valid_append_last text (by decide)]
      simp [texts]
  | .arr [] =>
      simpa [texts, itemsTexts] using
        @valid_of_ascii (raw (.arr [])) (by decide)
  | .arr (w :: rest) =>
      have hItems :=
        valid_itemsRaw_iff (w :: rest) hAscii
      rw [itemsRaw, valid_cons_ascii (by decide)] at hItems
      rw [raw, valid_cons_ascii (by decide),
        ← List.append_assoc, valid_append_last _ (by decide)]
      exact hItems
  | .obj [] =>
      simpa [texts, membersTexts] using
        @valid_of_ascii (raw (.obj [])) (by decide)
  | .obj ((name, w) :: rest) =>
      have hMembers :=
        valid_membersRaw_iff ((name, w) :: rest) hAscii
      rw [membersRaw, valid_cons_ascii (by decide),
        valid_cons_ascii (by decide), valid_member]
        at hMembers
      rw [raw, valid_cons_ascii (by decide),
        valid_cons_ascii (by decide), valid_member,
        ← List.append_assoc, valid_append_last _ (by decide)]
      exact hMembers
termination_by 2 * sizeOf v
decreasing_by
  all_goals simp

theorem valid_itemsRaw_iff
    (items : List Json)
    (hAscii : ∀ l ∈ itemsLexemes items, ∀ b ∈ l, b < 128) :
    Valid (itemsRaw items) ↔
      ∀ x ∈ itemsTexts items, Valid x := by
  match items with
  | [] => simp [itemsRaw, itemsTexts, valid_nil]
  | v :: rest =>
      have hFirst :=
        valid_raw_iff v
          (fun l hMem =>
            hAscii l (List.mem_append_left _ hMem))
      have hRest :=
        valid_itemsRaw_iff rest
          (fun l hMem =>
            hAscii l (List.mem_append_right _ hMem))
      rw [itemsRaw, valid_cons_ascii (by decide),
        valid_append_items, hFirst, hRest, itemsTexts]
      exact List.forall_mem_append.symm
termination_by 2 * sizeOf items
decreasing_by
  all_goals simp
  all_goals omega

theorem valid_membersRaw_iff
    (members : Members)
    (hAscii :
      ∀ l ∈ membersLexemes members, ∀ b ∈ l, b < 128) :
    Valid (membersRaw members) ↔
      ∀ x ∈ membersTexts members, Valid x := by
  match members with
  | [] => simp [membersRaw, membersTexts, valid_nil]
  | (name, v) :: rest =>
      have hFirst :=
        valid_raw_iff v
          (fun l hMem =>
            hAscii l (List.mem_append_left _ hMem))
      have hRest :=
        valid_membersRaw_iff rest
          (fun l hMem =>
            hAscii l (List.mem_append_right _ hMem))
      rw [membersRaw, valid_cons_ascii (by decide),
        valid_cons_ascii (by decide), valid_member,
        valid_append_members, hFirst, hRest, membersTexts,
        List.forall_mem_cons, List.forall_mem_append]
termination_by 2 * sizeOf members
decreasing_by
  all_goals simp
  all_goals omega

end

end Json

------------------------------------------------------------
-- Members
------------------------------------------------------------

namespace Json

/- A member of an object; the last one of a name counts. -/
def field
    (name : List UInt8) :
    Members → Option Json
| [] => none
| (other, v) :: rest =>
    match field name rest with
    | some found => some found
    | none => if other = name then some v else none

theorem mem_of_field
    {name : List UInt8}
    {members : Members}
    {v : Json}
    (h : field name members = some v) :
    (name, v) ∈ members := by
  induction members with
  | nil => cases h
  | cons member rest ih =>
      rcases member with ⟨other, w⟩
      simp only [field] at h
      cases hRest : field name rest with
      | some found =>
          rw [hRest] at h ih
          exact List.mem_cons_of_mem _ (ih h)
      | none =>
          simp only [hRest] at h
          split_ifs at h with hName
          cases h
          rw [hName]
          exact List.mem_cons_self

/- A name that occurs once has its value. -/
theorem field_of_mem
    {name : List UInt8}
    {members : Members}
    {v : Json}
    (hNodup : (members.map Prod.fst).Nodup)
    (hMem : (name, v) ∈ members) :
    field name members = some v := by
  induction members with
  | nil => cases hMem
  | cons member rest ih =>
      rcases member with ⟨other, w⟩
      rw [List.map_cons, List.nodup_cons] at hNodup
      rcases hNodup with ⟨hNew, hNodup⟩
      rcases List.mem_cons.mp hMem with hEq | hRest
      · cases hEq
        cases hLater : field name rest with
        | none => simp [field, hLater]
        | some found =>
            have hOther := mem_of_field hLater
            exact
              absurd (List.mem_map_of_mem hOther)
                hNew
      · simp [field, ih hNodup hRest]

mutual

theorem size_nonneg :
    (v : Json) → 0 ≤ v.size
| .null => by decide
| .bool true => by decide
| .bool false => by decide
| .num lexeme => by
    simp only [size]
    omega
| .str text => by
    simp only [size]
    omega
| .arr items => by
    have hItems := itemsSize_nonneg items
    simp only [size]
    split_ifs
    · decide
    · omega
| .obj members => by
    have hMembers := membersSize_nonneg members
    simp only [size]
    split_ifs
    · decide
    · omega

theorem itemsSize_nonneg :
    (items : List Json) → 0 ≤ itemsSize items
| [] => Int.le_refl _
| v :: rest => by
    have hFirst := size_nonneg v
    have hRest := itemsSize_nonneg rest
    simp only [itemsSize]
    omega

theorem membersSize_nonneg :
    (members : List (List UInt8 × Json)) →
      0 ≤ membersSize members
| [] => Int.le_refl _
| (name, v) :: rest => by
    have hFirst := size_nonneg v
    have hRest := membersSize_nonneg rest
    simp only [membersSize]
    omega

end

theorem membersSize_perm
    {members other : Members}
    (h : members.Perm other) :
    membersSize members = membersSize other := by
  induction h with
  | nil => rfl
  | cons member _ ih => simp only [membersSize, ih]
  | swap member other rest =>
      simp only [membersSize]
      omega
  | trans _ _ hFirst hLast => exact hFirst.trans hLast

theorem membersSize_sublist
    {members other : Members}
    (h : members.Sublist other) :
    membersSize members ≤ membersSize other := by
  induction h with
  | slnil => exact Int.le_refl _
  | cons member _ ih =>
      have hNew := size_nonneg member.2
      simp only [membersSize]
      omega
  | cons_cons member _ ih =>
      simp only [membersSize]
      omega

/- Members that are all there take their room. -/
theorem membersSize_le
    {members wanted : Members}
    (hNodup : (wanted.map Prod.fst).Nodup)
    (hFields :
      ∀ m ∈ wanted, field m.1 members = some m.2) :
    membersSize wanted ≤ membersSize members := by
  have hSub : wanted ⊆ members :=
    fun m hMem => mem_of_field (hFields m hMem)
  have hOnce := List.Nodup.of_map Prod.fst hNodup
  rcases List.Nodup.subperm hOnce hSub with
    ⟨found, hPerm, hFound⟩
  rw [← membersSize_perm hPerm]
  exact membersSize_sublist hFound

theorem size_obj_le
    {members wanted : Members}
    (hSize : membersSize wanted ≤ membersSize members) :
    size (.obj wanted) ≤ size (.obj members) := by
  cases wanted with
  | nil =>
      cases members with
      | nil => exact Int.le_refl _
      | cons member rest =>
          have hFirst := size_nonneg member.2
          have hRest := membersSize_nonneg rest
          simp only [size, membersSize, List.isEmpty_nil,
            List.isEmpty_cons, if_true, Bool.false_eq_true,
            if_false]
          omega
  | cons first more =>
      have hNew := size_nonneg first.2
      have hMore := membersSize_nonneg more
      cases members with
      | nil =>
          simp only [membersSize] at hSize
          omega
      | cons member rest =>
          simp only [size, List.isEmpty_cons,
            Bool.false_eq_true, if_false]
          omega

theorem mem_membersTexts
    {members : Members}
    {x : List UInt8} :
    x ∈ membersTexts members ↔
      ∃ m ∈ members, x = m.1 ∨ x ∈ m.2.texts := by
  induction members with
  | nil => simp [membersTexts]
  | cons member rest ih =>
      rw [List.exists_mem_cons_iff, ← ih]
      simp [membersTexts, or_assoc]

/- The text is a JSON object that shows these members. -/
def Shows
    (text : List UInt8)
    (wanted : Members) :
    Prop :=
  ∃ members,
    Denotes text (.obj members) ∧
      ∀ m ∈ wanted, field m.1 members = some m.2

/- A text with no room for escape sequences has none. -/
theorem plain_of_shows
    {text : List UInt8}
    {wanted : Members}
    (hNodup : (wanted.map Prod.fst).Nodup)
    (hLength : text.length ≤ size (.obj wanted))
    (h : Shows text wanted) :
    ∀ x ∈ (Json.obj wanted).texts, PlainText x := by
  rcases h with ⟨members, ⟨_, hRead⟩, hFields⟩
  have hSize :=
    size_obj_le (membersSize_le hNodup hFields)
  have hPlain := plain_of_length_le hRead (by omega)
  intro x hMem
  rcases mem_membersTexts.mp hMem with ⟨m, hWanted, hText⟩
  have hMember := mem_of_field (hFields m hWanted)
  exact hPlain x (mem_membersTexts.mpr ⟨m, hMember, hText⟩)

/-
  Written out with its strings as they are, an object shows
  its members exactly if no string needs an escape sequence.
-/
theorem fields_raw_iff
    {wanted : Members}
    (hNodup : (wanted.map Prod.fst).Nodup)
    (hNumbers : ∀ x ∈ (Json.obj wanted).lexemes, Number x) :
    Shows (Json.obj wanted).raw wanted ↔
      ∀ x ∈ (Json.obj wanted).texts, Literal x := by
  have hValid :=
    valid_raw_iff (.obj wanted)
      (fun l hMem => (hNumbers l hMem).ascii)
  constructor
  · intro h x hMem
    have hLength := raw_length (.obj wanted)
    have hPlain := plain_of_shows hNodup (by omega) h
    rcases h with ⟨members, ⟨hUtf8, _⟩, _⟩
    exact ⟨hValid.mp hUtf8 x hMem, hPlain x hMem⟩
  · intro h
    refine ⟨wanted, ⟨?_, ?_⟩, ?_⟩
    · exact hValid.mpr (fun x hMem => (h x hMem).1)
    · exact
        read_raw ⟨fun x hMem => (h x hMem).2, hNumbers⟩
    · intro m hMem
      exact field_of_mem hNodup hMem

end Json
