import CacheServer.Lib.Machine
import CacheServer.Lib.Utf8

/-
  JSON texts, read byte by byte.

  The reader keeps a mode and a stack of the containers that
  wait for a value, as a scanner with a pushdown store does.
  A number keeps its text; a string is kept as the bytes it
  stands for, with the replacement character for a lone
  surrogate. A limit on the depth of nesting is optional.

  Key definitions include:
    * `Json.step`
    * `Json.read`
    * `Json.Denotes`

  Key theorems include:
    * `Json.exec_value`
    * `Json.step_unlimited`
    * `Json.read_nat`
-/

------------------------------------------------------------
-- Values And States
------------------------------------------------------------

inductive Json
| null
| bool (b : Bool)
| num (lexeme : List UInt8)
| str (text : List UInt8)
| arr (items : List Json)
| obj (members : List (List UInt8 × Json))
deriving Repr

namespace Json

abbrev Members :=
  List (List UInt8 × Json)

/- A container that waits for a value. -/
inductive Frame
| item (items : List Json)
| member (members : Members) (name : List UInt8)

/- Where a number stands. -/
inductive NumPc
| minus
| zero
| int
| point
| frac
| exp
| expSign
| expDigits
deriving DecidableEq, Repr

/-
  Where a string stands. A high surrogate that has just been
  read is at the end of the text as a replacement character.
-/
inductive StrPc
| plain (high : Option Nat)
| escape (high : Option Nat)
| hex (high : Option Nat) (digits : Nat) (code : Nat)
deriving DecidableEq, Repr

/-
  What the reader expects. The members in a mode are those
  of the innermost object; a string with such members is the
  name of the next one.
-/
inductive Mode
| value
| firstItem
| afterItem (items : List Json)
| firstName
| name (members : Members)
| colon (members : Members) (name : List UInt8)
| afterMember (members : Members)
| lit (rest : List UInt8) (v : Json)
| num (pc : NumPc) (lexeme : List UInt8)
| str (owner : Option Members) (text : List UInt8)
    (pc : StrPc)
| done (v : Json)

structure State where
  mode : Mode
  stack : List Frame

end Json

------------------------------------------------------------
-- Numbers And Strings
------------------------------------------------------------

namespace Json

/- Whitespace. -/
def space
    (b : UInt8) :
    Bool :=
  b = 32 || b = 9 || b = 10 || b = 13

def digit
    (b : UInt8) :
    Bool :=
  48 ≤ b && b ≤ 57

def NumPc.final :
    NumPc → Bool
| .zero => true
| .int => true
| .frac => true
| .expDigits => true
| _ => false

/- A byte after the integer or the fraction of a number. -/
def numExp
    (b : UInt8) :
    Option NumPc :=
  if b = 101 ∨ b = 69 then some .exp else none

def numPoint
    (b : UInt8) :
    Option NumPc :=
  if b = 46 then some .point else numExp b

def numNext :
    NumPc → UInt8 → Option NumPc
| .minus, b =>
    if b = 48 then some .zero
    else if digit b then some .int
    else none
| .zero, b => numPoint b
| .int, b => if digit b then some .int else numPoint b
| .point, b => if digit b then some .frac else none
| .frac, b => if digit b then some .frac else numExp b
| .exp, b =>
    if b = 43 ∨ b = 45 then some .expSign
    else if digit b then some .expDigits
    else none
| .expSign, b => if digit b then some .expDigits else none
| .expDigits, b => if digit b then some .expDigits else none

/- The value of a hexadecimal digit. -/
def hexDigit
    (b : UInt8) :
    Option Nat :=
  if digit b then some (b.toNat - 48)
  else if 97 ≤ b ∧ b ≤ 102 then some (b.toNat - 87)
  else if 65 ≤ b ∧ b ≤ 70 then some (b.toNat - 55)
  else none

def replacement : List UInt8 :=
  String.utf8EncodeChar '\uFFFD'

def highSurrogate
    (u : Nat) :
    Bool :=
  0xD800 ≤ u && u < 0xDC00

def lowSurrogate
    (u : Nat) :
    Bool :=
  0xDC00 ≤ u && u < 0xE000

/- The character of a pair of surrogates. -/
def surrogatePair
    (high low : Nat) :
    Char :=
  .ofNat (0x10000 + (high - 0xD800) * 0x400 + (low - 0xDC00))

/- A text with the unit of an escape sequence. -/
def addUnit
    (text : List UInt8)
    (high : Option Nat)
    (u : Nat) :
    List UInt8 × StrPc :=
  match high, lowSurrogate u with
  | some h, true =>
      (text.take (text.length - replacement.length) ++
          String.utf8EncodeChar (surrogatePair h u),
        .plain none)
  | none, true => (text ++ replacement, .plain none)
  | _, false =>
      if highSurrogate u then
        (text ++ replacement, .plain (some u))
      else
        (text ++ String.utf8EncodeChar (.ofNat u),
          .plain none)

/- The byte that a short escape sequence stands for. -/
def shortEscape
    (b : UInt8) :
    Option UInt8 :=
  if b = 34 ∨ b = 92 ∨ b = 47 then some b
  else if b = 98 then some 8
  else if b = 102 then some 12
  else if b = 110 then some 10
  else if b = 114 then some 13
  else if b = 116 then some 9
  else none

/- A byte of a string other than its closing quote. -/
def strNext
    (text : List UInt8)
    (b : UInt8) :
    StrPc → Option (List UInt8 × StrPc)
| .plain high =>
    if b = 92 then some (text, .escape high)
    else if b < 32 then none
    else some (text ++ [b], .plain none)
| .escape high =>
    if b = 117 then some (text, .hex high 0 0)
    else
      (shortEscape b).map
        (fun c => (text ++ [c], .plain none))
| .hex high digits code =>
    (hexDigit b).map
      (fun d =>
        if digits = 3 then addUnit text high (16 * code + d)
        else (text, .hex high (digits + 1) (16 * code + d)))

def StrPc.isPlain :
    StrPc → Bool
| .plain _ => true
| _ => false

end Json

------------------------------------------------------------
-- The Reader
------------------------------------------------------------

namespace Json

/- Hand a value to the container that waits for it. -/
def deliver
    (v : Json) :
    List Frame → State
| [] => { mode := .done v, stack := [] }
| .item items :: stack =>
    { mode := .afterItem (items ++ [v]), stack := stack }
| .member members name :: stack =>
    { mode := .afterMember (members ++ [(name, v)])
      stack := stack }

/- Whether one more container may be opened. -/
def within
    (limit : Option Nat)
    (stack : List Frame) :
    Bool :=
  match limit with
  | none => true
  | some depth => stack.length < depth

def openContainer
    (limit : Option Nat)
    (mode : Mode)
    (stack : List Frame) :
    Option State :=
  if within limit stack then
    some { mode := mode, stack := stack }
  else
    none

/- The first byte of a value. -/
def beginValue
    (limit : Option Nat)
    (stack : List Frame)
    (b : UInt8) :
    Option State :=
  if b = 34 then
    some { mode := .str none [] (.plain none), stack := stack }
  else if b = 91 then
    openContainer limit .firstItem stack
  else if b = 123 then
    openContainer limit .firstName stack
  else if b = 116 then
    some
      { mode := .lit [114, 117, 101] (.bool true)
        stack := stack }
  else if b = 102 then
    some
      { mode := .lit [97, 108, 115, 101] (.bool false)
        stack := stack }
  else if b = 110 then
    some
      { mode := .lit [117, 108, 108] .null, stack := stack }
  else if b = 45 then
    some { mode := .num .minus [b], stack := stack }
  else if b = 48 then
    some { mode := .num .zero [b], stack := stack }
  else if digit b then
    some { mode := .num .int [b], stack := stack }
  else
    none

/- A byte after a value. -/
def endValue
    (s : State)
    (b : UInt8) :
    Option State :=
  match s.mode with
  | .done _ => if space b then some s else none
  | .afterItem items =>
      if space b then some s
      else if b = 44 then
        some { mode := .value, stack := .item items :: s.stack }
      else if b = 93 then
        some (deliver (.arr items) s.stack)
      else none
  | .afterMember members =>
      if space b then some s
      else if b = 44 then
        some { mode := .name members, stack := s.stack }
      else if b = 125 then
        some (deliver (.obj members) s.stack)
      else none
  | _ => none

/- The closing quote of a string. -/
def closeString
    (text : List UInt8)
    (stack : List Frame) :
    Option Members → State
| none => deliver (.str text) stack
| some members =>
    { mode := .colon members text, stack := stack }

def step
    (limit : Option Nat)
    (s : State)
    (b : UInt8) :
    Option State :=
  match s.mode with
  | .value =>
      if space b then some s else beginValue limit s.stack b
  | .firstItem =>
      if space b then some s
      else if b = 93 then some (deliver (.arr []) s.stack)
      else beginValue limit (.item [] :: s.stack) b
  | .firstName =>
      if space b then some s
      else if b = 34 then
        some
          { mode := .str (some []) [] (.plain none)
            stack := s.stack }
      else if b = 125 then
        some (deliver (.obj []) s.stack)
      else none
  | .name members =>
      if space b then some s
      else if b = 34 then
        some
          { mode := .str (some members) [] (.plain none)
            stack := s.stack }
      else none
  | .colon members name =>
      if space b then some s
      else if b = 58 then
        some
          { mode := .value
            stack := .member members name :: s.stack }
      else none
  | .lit [] _ => none
  | .lit (c :: rest) v =>
      if b = c then
        match rest with
        | [] => some (deliver v s.stack)
        | d :: more =>
            some
              { mode := .lit (d :: more) v, stack := s.stack }
      else none
  | .num pc lexeme =>
      match numNext pc b with
      | some next =>
          some
            { mode := .num next (lexeme ++ [b])
              stack := s.stack }
      | none =>
          if pc.final then
            endValue (deliver (.num lexeme) s.stack) b
          else none
  | .str owner text pc =>
      if pc.isPlain && b = 34 then
        some (closeString text s.stack owner)
      else
        (strNext text b pc).map
          (fun r =>
            { mode := .str owner r.1 r.2, stack := s.stack })
  | .afterItem _ => endValue s b
  | .afterMember _ => endValue s b
  | .done _ => endValue s b

def reader
    (limit : Option Nat) :
    Machine State UInt8 :=
  { step := step limit }

/- A value that nothing waits for is to be read. -/
def start : State :=
  { mode := .value, stack := [] }

/- The value that has been read at the end of the text. -/
def finish
    (s : State) :
    Option Json :=
  if s.stack.isEmpty then
    match s.mode with
    | .done v => some v
    | .num pc lexeme =>
        if pc.final then some (.num lexeme) else none
    | _ => none
  else
    none

def read
    (limit : Option Nat)
    (text : List UInt8) :
    Option Json :=
  ((reader limit).exec start text).bind finish

/- The text is well formed, and this is its value. -/
def Denotes
    (text : List UInt8)
    (v : Json) :
    Prop :=
  Utf8.Valid text ∧ read none text = some v

end Json

------------------------------------------------------------
-- Values Inside Containers
------------------------------------------------------------

namespace Json

/- The same state with more containers around it. -/
def State.under
    (s : State)
    (outer : List Frame) :
    State :=
  match s.mode with
  | .done v => deliver v outer
  | mode => { mode := mode, stack := s.stack ++ outer }

variable {s t : State}
variable {b : UInt8}
variable {limit : Option Nat}
variable {outer : List Frame}

@[simp] theorem deliver_under
    (v : Json)
    (stack : List Frame) :
    (deliver v stack).under outer =
      deliver v (stack ++ outer) := by
  cases stack with
  | nil => rfl
  | cons frame rest =>
      cases frame with
      | item items => rfl
      | member members name => rfl

theorem closeString_under
    (text : List UInt8)
    (stack : List Frame)
    (owner : Option Members) :
    (closeString text stack owner).under outer =
      closeString text (stack ++ outer) owner := by
  cases owner with
  | none => exact deliver_under (.str text) stack
  | some members => rfl

/- Whitespace after a value changes nothing. -/
theorem endValue_space
    (v : Json)
    (stack : List Frame)
    (hSpace : space b = true) :
    endValue (deliver v stack) b = some (deliver v stack) := by
  cases stack with
  | nil => simp [deliver, endValue, hSpace]
  | cons frame rest =>
      cases frame with
      | item items => simp [deliver, endValue, hSpace]
      | member members name =>
          simp [deliver, endValue, hSpace]

theorem step_deliver
    (limit : Option Nat)
    (v : Json)
    (stack : List Frame) :
    step limit (deliver v stack) b =
      endValue (deliver v stack) b := by
  cases stack with
  | nil => rfl
  | cons frame rest =>
      cases frame with
      | item items => rfl
      | member members name => rfl

theorem endValue_under
    (h : endValue s b = some t) :
    endValue (s.under outer) b = some (t.under outer) := by
  rcases s with ⟨mode, stack⟩
  cases mode with
  | done v =>
      by_cases hSpace : space b = true
      · simp only [endValue, hSpace, if_true] at h
        cases h
        exact endValue_space v outer hSpace
      · simp [endValue, hSpace] at h
  | afterItem items =>
      change
        endValue
            { mode := .afterItem items
              stack := stack ++ outer } b =
          some (t.under outer)
      simp only [endValue] at h ⊢
      split_ifs at h ⊢
      · cases h
        rfl
      · cases h
        rfl
      · cases h
        rw [deliver_under]
  | afterMember members =>
      change
        endValue
            { mode := .afterMember members
              stack := stack ++ outer } b =
          some (t.under outer)
      simp only [endValue] at h ⊢
      split_ifs at h ⊢
      · cases h
        rfl
      · cases h
        rfl
      · cases h
        rw [deliver_under]
  | _ => cases h

theorem openContainer_under
    {mode : Mode}
    {stack : List Frame}
    (hMode :
      ∀ stack,
        State.under { mode := mode, stack := stack } outer =
          { mode := mode, stack := stack ++ outer })
    (h : openContainer none mode stack = some t) :
    openContainer none mode (stack ++ outer) =
      some (t.under outer) := by
  have hEq : { mode := mode, stack := stack } = t :=
    Option.some.inj h
  rw [← hEq, hMode]
  rfl

/- Two decisions for the same reason, branch by branch. -/
theorem ite_eq_some_imp
    {α β : Type}
    {c : Prop}
    [Decidable c]
    {x y : Option α}
    {x' y' : Option β}
    {r : α}
    {r' : β}
    (hThen : x = some r → x' = some r')
    (hElse : y = some r → y' = some r')
    (h : (if c then x else y) = some r) :
    (if c then x' else y') = some r' := by
  by_cases hC : c
  · rw [if_pos hC] at h ⊢
    exact hThen h
  · rw [if_neg hC] at h ⊢
    exact hElse h

/- A decision that has an outcome went one way or the other. -/
theorem ite_eq_some_elim
    {α : Type}
    {c P : Prop}
    [Decidable c]
    {x y : Option α}
    {r : α}
    (h : (if c then x else y) = some r)
    (hThen : c → x = some r → P)
    (hElse : ¬ c → y = some r → P) :
    P := by
  by_cases hC : c
  · rw [if_pos hC] at h
    exact hThen hC h
  · rw [if_neg hC] at h
    exact hElse hC h

theorem openContainer_eq
    {mode : Mode}
    {stack : List Frame}
    (h : openContainer limit mode stack = some t) :
    { mode := mode, stack := stack } = t :=
  ite_eq_some_elim h
    (fun _ hOpen => Option.some.inj hOpen)
    (fun _ hNone => by cases hNone)

/- What a first byte of a value makes of the reader. -/
inductive Opens :
    UInt8 → Mode → Prop
| string : Opens 34 (.str none [] (.plain none))
| array : Opens 91 .firstItem
| object : Opens 123 .firstName
| litTrue : Opens 116 (.lit [114, 117, 101] (.bool true))
| litFalse :
    Opens 102 (.lit [97, 108, 115, 101] (.bool false))
| litNull : Opens 110 (.lit [117, 108, 108] .null)
| minus : Opens 45 (.num .minus [45])
| zero : Opens 48 (.num .zero [48])
| digit
    {b : UInt8}
    (hDigit : digit b = true) :
    Opens b (.num .int [b])

theorem beginValue_opens
    {stack : List Frame}
    (h : beginValue limit stack b = some t) :
    ∃ mode,
      { mode := mode, stack := stack } = t ∧
        Opens b mode := by
  unfold beginValue at h
  refine ite_eq_some_elim h ?_ (fun _ h => ?_)
  · intro hEq hT
    subst hEq
    exact ⟨_, Option.some.inj hT, .string⟩
  refine ite_eq_some_elim h ?_ (fun _ h => ?_)
  · intro hEq hT
    subst hEq
    exact ⟨_, openContainer_eq hT, .array⟩
  refine ite_eq_some_elim h ?_ (fun _ h => ?_)
  · intro hEq hT
    subst hEq
    exact ⟨_, openContainer_eq hT, .object⟩
  refine ite_eq_some_elim h ?_ (fun _ h => ?_)
  · intro hEq hT
    subst hEq
    exact ⟨_, Option.some.inj hT, .litTrue⟩
  refine ite_eq_some_elim h ?_ (fun _ h => ?_)
  · intro hEq hT
    subst hEq
    exact ⟨_, Option.some.inj hT, .litFalse⟩
  refine ite_eq_some_elim h ?_ (fun _ h => ?_)
  · intro hEq hT
    subst hEq
    exact ⟨_, Option.some.inj hT, .litNull⟩
  refine ite_eq_some_elim h ?_ (fun _ h => ?_)
  · intro hEq hT
    subst hEq
    exact ⟨_, Option.some.inj hT, .minus⟩
  refine ite_eq_some_elim h ?_ (fun _ h => ?_)
  · intro hEq hT
    subst hEq
    exact ⟨_, Option.some.inj hT, .zero⟩
  refine ite_eq_some_elim h ?_ (fun _ h => ?_)
  · intro hDigit hT
    exact ⟨_, Option.some.inj hT, .digit hDigit⟩
  · cases h

theorem beginValue_under
    {stack : List Frame}
    (h : beginValue none stack b = some t) :
    beginValue none (stack ++ outer) b =
      some (t.under outer) := by
  revert h
  unfold beginValue
  repeat' apply ite_eq_some_imp
  all_goals intro h
  all_goals
    first
    | exact openContainer_under (fun _ => rfl) h
    | cases h

/- A step does not depend on the containers around it. -/
theorem step_under
    (h : step none s b = some t) :
    step none (s.under outer) b = some (t.under outer) := by
  rcases s with ⟨mode, stack⟩
  cases mode with
  | value =>
      change
        step none { mode := .value, stack := stack ++ outer }
            b =
          some (t.under outer)
      simp only [step] at h ⊢
      split_ifs at h ⊢
      · cases h
        rfl
      · exact beginValue_under h
  | firstItem =>
      change
        step none
            { mode := .firstItem, stack := stack ++ outer } b =
          some (t.under outer)
      simp only [step] at h ⊢
      split_ifs at h ⊢
      · cases h
        rfl
      · cases h
        rw [deliver_under]
      · exact beginValue_under h
  | firstName =>
      change
        step none
            { mode := .firstName, stack := stack ++ outer } b =
          some (t.under outer)
      simp only [step] at h ⊢
      split_ifs at h ⊢
      · cases h
        rfl
      · cases h
        rfl
      · cases h
        rw [deliver_under]
  | name members =>
      change
        step none
            { mode := .name members
              stack := stack ++ outer } b =
          some (t.under outer)
      simp only [step] at h ⊢
      split_ifs at h ⊢
      · cases h
        rfl
      · cases h
        rfl
  | colon members name =>
      change
        step none
            { mode := .colon members name
              stack := stack ++ outer } b =
          some (t.under outer)
      simp only [step] at h ⊢
      split_ifs at h ⊢
      · cases h
        rfl
      · cases h
        rfl
  | lit rest v =>
      cases rest with
      | nil => cases h
      | cons c more =>
          change
            step none
                { mode := .lit (c :: more) v
                  stack := stack ++ outer } b =
              some (t.under outer)
          simp only [step] at h ⊢
          split_ifs at h ⊢
          cases more with
          | nil =>
              cases h
              rw [deliver_under]
          | cons d more =>
              cases h
              rfl
  | num pc lexeme =>
      change
        step none
            { mode := .num pc lexeme
              stack := stack ++ outer } b =
          some (t.under outer)
      simp only [step] at h ⊢
      cases hNext : numNext pc b with
      | some next =>
          rw [hNext] at h
          cases h
          rfl
      | none =>
          simp only [hNext] at h ⊢
          split_ifs at h ⊢
          rw [← deliver_under]
          exact endValue_under h
  | str owner text pc =>
      change
        step none
            { mode := .str owner text pc
              stack := stack ++ outer } b =
          some (t.under outer)
      simp only [step] at h ⊢
      split_ifs at h ⊢
      · cases h
        rw [closeString_under]
      · rcases Option.map_eq_some_iff.mp h with
          ⟨r, hNext, hEq⟩
        rw [hNext]
        cases hEq
        rfl
  | afterItem items =>
      have hEnd :
          endValue { mode := .afterItem items, stack := stack }
              b =
            some t := h
      exact endValue_under hEnd
  | afterMember members =>
      have hEnd :
          endValue
              { mode := .afterMember members, stack := stack }
              b =
            some t := h
      exact endValue_under hEnd
  | done v =>
      have hEnd :
          endValue { mode := .done v, stack := stack } b =
            some t := h
      change step none (deliver v outer) b = some (t.under outer)
      rw [step_deliver]
      exact endValue_under hEnd

theorem exec_under
    {text : List UInt8}
    (h : (reader none).exec s text = some t) :
    (reader none).exec (s.under outer) text =
      some (t.under outer) := by
  induction text generalizing s with
  | nil =>
      have hEq : s = t := by simpa using h
      rw [hEq]
      rfl
  | cons b text ih =>
      rcases Machine.exec_cons.mp h with ⟨u, hStep, hRest⟩
      exact
        Machine.exec_cons.mpr
          ⟨u.under outer, step_under hStep, ih hRest⟩

/- A byte that ends a number, too. -/
def Ends
    (b : UInt8) :
    Prop :=
  ∀ pc, numNext pc b = none

theorem ends_comma :
    Ends 44 := by
  intro pc
  cases pc with
  | _ => rfl

theorem ends_bracket :
    Ends 93 := by
  intro pc
  cases pc with
  | _ => rfl

theorem ends_brace :
    Ends 125 := by
  intro pc
  cases pc with
  | _ => rfl

/-
  A text that reads as a value does so inside containers,
  up to the byte that comes after it.
-/
theorem exec_value
    {text : List UInt8}
    {v : Json}
    (hRead : read none text = some v)
    (hEnds : Ends b)
    (hEnd : endValue (deliver v outer) b = some t) :
    (reader none).exec { mode := .value, stack := outer }
        (text ++ [b]) =
      some t := by
  rcases Option.bind_eq_some_iff.mp hRead with
    ⟨s, hExec, hFinish⟩
  have hOuter := @exec_under start s outer text hExec
  refine Machine.exec_append.mpr ⟨s.under outer, hOuter, ?_⟩
  refine Machine.exec_cons.mpr ⟨t, ?_, rfl⟩
  rcases s with ⟨mode, stack⟩
  unfold finish at hFinish
  split_ifs at hFinish with hStack
  rw [List.isEmpty_iff] at hStack
  subst hStack
  cases mode with
  | done w =>
      cases hFinish
      exact (step_deliver none v outer).trans hEnd
  | num pc lexeme =>
      simp only at hFinish
      split_ifs at hFinish with hPc
      cases hFinish
      simp only [reader, step, State.under, hEnds pc, hPc,
        if_true, List.nil_append]
      exact hEnd
  | _ => cases hFinish

end Json

------------------------------------------------------------
-- Limits
------------------------------------------------------------

namespace Json

variable {s t : State}
variable {b : UInt8}
variable {limit : Option Nat}

theorem openContainer_unlimited
    {mode : Mode}
    {stack : List Frame}
    (h : openContainer limit mode stack = some t) :
    openContainer none mode stack = some t := by
  unfold openContainer at h
  split_ifs at h
  exact h

/- What is read within a limit is read without one. -/
theorem beginValue_unlimited
    {stack : List Frame}
    (h : beginValue limit stack b = some t) :
    beginValue none stack b = some t := by
  revert h
  unfold beginValue
  repeat' apply ite_eq_some_imp
  all_goals
    first
    | exact id
    | exact openContainer_unlimited

theorem step_unlimited
    (h : step limit s b = some t) :
    step none s b = some t := by
  rcases s with ⟨mode, stack⟩
  cases mode with
  | value =>
      simp only [step] at h ⊢
      split_ifs at h ⊢
      · exact h
      · exact beginValue_unlimited h
  | firstItem =>
      simp only [step] at h ⊢
      split_ifs at h ⊢
      · exact h
      · exact h
      · exact beginValue_unlimited h
  | lit rest v =>
      cases rest with
      | nil => exact h
      | cons c more => exact h
  | _ => exact h

theorem exec_unlimited
    {text : List UInt8}
    (h : (reader limit).exec s text = some t) :
    (reader none).exec s text = some t := by
  induction text generalizing s with
  | nil => exact h
  | cons b text ih =>
      rcases Machine.exec_cons.mp h with ⟨u, hStep, hRest⟩
      exact
        Machine.exec_cons.mpr
          ⟨u, step_unlimited hStep, ih hRest⟩

theorem read_unlimited
    {text : List UInt8}
    {v : Json}
    (h : read limit text = some v) :
    read none text = some v := by
  rcases Option.bind_eq_some_iff.mp h with ⟨s, hExec, hFinish⟩
  exact
    Option.bind_eq_some_iff.mpr
      ⟨s, exec_unlimited hExec, hFinish⟩

end Json

------------------------------------------------------------
-- Strings
------------------------------------------------------------

namespace Json

/- A byte that stands for itself in a string. -/
def Plain
    (b : UInt8) :
    Prop :=
  b ≠ 34 ∧ b ≠ 92 ∧ 32 ≤ b

instance (b : UInt8) : Decidable (Plain b) :=
  inferInstanceAs (Decidable (_ ∧ _ ∧ _))

def PlainText
    (text : List UInt8) :
    Prop :=
  ∀ b ∈ text, Plain b

instance (text : List UInt8) : Decidable (PlainText text) :=
  inferInstanceAs (Decidable (∀ b ∈ text, Plain b))

theorem plainText_nil :
    PlainText [] := by
  intro b hMem
  cases hMem

theorem PlainText.append
    {text other : List UInt8}
    (hFirst : PlainText text)
    (hLast : PlainText other) :
    PlainText (text ++ other) := by
  intro b hMem
  rcases List.mem_append.mp hMem with hText | hOther
  · exact hFirst b hText
  · exact hLast b hOther

variable {limit : Option Nat}
variable {owner : Option Members}
variable {text : List UInt8}
variable {stack : List Frame}

theorem step_plain
    {b : UInt8}
    (high : Option Nat)
    (hPlain : Plain b) :
    step limit
        { mode := .str owner text (.plain high)
          stack := stack } b =
      some
        { mode := .str owner (text ++ [b]) (.plain none)
          stack := stack } := by
  rcases hPlain with ⟨hQuote, hSlash, hLow⟩
  have hControl : ¬ b < 32 := UInt8.not_lt.mpr hLow
  simp [step, strNext, StrPc.isPlain, hQuote, hSlash, hControl]

theorem exec_plain
    {bs : List UInt8}
    (hPlain : PlainText bs) :
    (reader limit).exec
        { mode := .str owner text (.plain none)
          stack := stack } bs =
      some
        { mode := .str owner (text ++ bs) (.plain none)
          stack := stack } := by
  induction bs generalizing text with
  | nil => simp
  | cons b bs ih =>
      have hFirst :
          step limit
              { mode := .str owner text (.plain none)
                stack := stack } b =
            some
              { mode := .str owner (text ++ [b]) (.plain none)
                stack := stack } :=
        step_plain none (hPlain b (by simp))
      have hRest :=
        @ih (text ++ [b])
          (fun c hMem => hPlain c (List.mem_cons_of_mem b hMem))
      refine Machine.exec_cons.mpr ⟨_, hFirst, hRest.trans ?_⟩
      simp

theorem step_close
    (high : Option Nat) :
    step limit
        { mode := .str owner text (.plain high)
          stack := stack } 34 =
      some (closeString text stack owner) := by
  simp [step, StrPc.isPlain]

end Json

------------------------------------------------------------
-- Whole Numbers
------------------------------------------------------------

namespace Json

/- A digit of a number in progress. -/
theorem digitChar_cases
    {n : Nat}
    (hDigit : n < 10) :
    ∃ b,
      String.utf8EncodeChar n.digitChar = [b] ∧
        digit b = true ∧ (b = 48 ↔ n = 0) := by
  refine ⟨UInt8.ofNat (48 + n), ?_⟩
  revert n
  decide

/- The first digit opens a number, the others continue it. -/
theorem exec_digits
    {s : State}
    (stack : List Frame)
    (sign : List UInt8)
    (hFirst :
      ∀ b,
        digit b = true →
          step none s b =
            some
              { mode :=
                  .num (if b = 48 then .zero else .int)
                    (sign ++ [b])
                stack := stack })
    (n : Nat) :
    (reader none).exec s (Utf8.encode (Nat.toDigits 10 n)) =
      some
        { mode :=
            .num (if n = 0 then .zero else .int)
              (sign ++ Utf8.encode (Nat.toDigits 10 n))
          stack := stack } := by
  induction n using Nat.strongRecOn with
  | ind n ih =>
      by_cases hOne : n < 10
      · rcases digitChar_cases hOne with
          ⟨b, hEncode, hDigit, hZero⟩
        have hStep := hFirst b hDigit
        rw [Nat.toDigits_of_lt_base hOne, Utf8.encode_cons,
          hEncode]
        refine Machine.exec_cons.mpr ⟨_, hStep, ?_⟩
        by_cases hNil : n = 0
        · simp [hNil, hZero.mpr hNil]
        · have hByte : b ≠ 48 := fun h => hNil (hZero.mp h)
          simp [hNil, hByte]
      · have hLast : n % 10 < 10 := Nat.mod_lt n (by omega)
        rcases digitChar_cases hLast with
          ⟨b, hEncode, hDigit, _⟩
        have hInit := ih (n / 10) (by omega)
        rw [Nat.toDigits_of_base_le (by omega) (by omega),
          Utf8.encode_append, Utf8.encode_cons, hEncode]
        refine Machine.exec_append.mpr ⟨_, hInit, ?_⟩
        refine Machine.exec_cons.mpr ⟨_, ?_, rfl⟩
        have hNil : n ≠ 0 := by omega
        have hInitNil : n / 10 ≠ 0 := by omega
        simp [reader, step, numNext, hDigit, hNil, hInitNil]

theorem step_start
    {b : UInt8}
    (hDigit : digit b = true) :
    step none start b =
      some
        { mode := .num (if b = 48 then .zero else .int) [b]
          stack := [] } := by
  have hOther : ∀ c, digit c = false → b ≠ c := by
    intro c hNot hEq
    rw [hEq, hNot] at hDigit
    cases hDigit
  have hSpace : space b = false := by
    simp [space, hOther 32 rfl, hOther 9 rfl, hOther 10 rfl,
      hOther 13 rfl]
  by_cases hZero : b = 48
  · subst hZero
    rfl
  · simp [step, start, beginValue, hSpace, hOther 34 rfl,
      hOther 91 rfl, hOther 123 rfl, hOther 116 rfl,
      hOther 102 rfl, hOther 110 rfl, hOther 45 rfl, hZero,
      hDigit]

theorem step_minus
    {b : UInt8}
    (hDigit : digit b = true) :
    step none { mode := .num .minus [45], stack := [] } b =
      some
        { mode :=
            .num (if b = 48 then .zero else .int) ([45] ++ [b])
          stack := [] } := by
  by_cases hZero : b = 48
  · subst hZero
    rfl
  · simp [step, numNext, hZero, hDigit]

theorem read_nat
    (n : Nat) :
    read none (Utf8.encode (Nat.toDigits 10 n)) =
      some (.num (Utf8.encode (Nat.toDigits 10 n))) := by
  have hExec := exec_digits [] [] (fun b => step_start) n
  unfold read
  rw [hExec]
  by_cases hZero : n = 0
  · simp [finish, NumPc.final, hZero]
  · simp [finish, NumPc.final, hZero]

theorem read_negative
    (n : Nat) :
    read none (45 :: Utf8.encode (Nat.toDigits 10 n)) =
      some (.num (45 :: Utf8.encode (Nat.toDigits 10 n))) := by
  have hExec := exec_digits [] [45] (fun b => step_minus) n
  have hAll :
      (reader none).exec start
          (45 :: Utf8.encode (Nat.toDigits 10 n)) =
        some _ :=
    Machine.exec_cons.mpr ⟨_, rfl, hExec⟩
  unfold read
  rw [hAll]
  by_cases hZero : n = 0
  · simp [finish, NumPc.final, hZero]
  · simp [finish, NumPc.final, hZero]

end Json
