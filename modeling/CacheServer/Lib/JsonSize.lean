import CacheServer.Lib.Json

/-
  How long the text of a JSON value is at least.

  Each byte that is read adds at most one to the size of what
  has been read so far: whitespace and escape sequences add
  less than they take. A text as short as its value allows
  therefore has every byte of a string stand for itself.

  Key definitions include:
    * `Json.size`
    * `Json.texts`

  Key theorems include:
    * `Json.step_grows`
    * `Json.plain_of_length_le`
-/

------------------------------------------------------------
-- Sizes
------------------------------------------------------------

namespace Json

mutual

/- The length of the shortest text for the value. -/
def size :
    Json → Int
| .null => 4
| .bool true => 4
| .bool false => 5
| .num lexeme => lexeme.length
| .str text => text.length + 2
| .arr items =>
    (if items.isEmpty then 1 else itemsSize items) + 1
| .obj members =>
    (if members.isEmpty then 1 else membersSize members) + 1

/- Items, each with the comma or the bracket after it. -/
def itemsSize :
    List Json → Int
| [] => 0
| v :: rest => v.size + 1 + itemsSize rest

def membersSize :
    List (List UInt8 × Json) → Int
| [] => 0
| (name, v) :: rest =>
    name.length + 3 + v.size + 1 + membersSize rest

end

mutual

/- All strings and names in the value. -/
def texts :
    Json → List (List UInt8)
| .null => []
| .bool _ => []
| .num _ => []
| .str text => [text]
| .arr items => itemsTexts items
| .obj members => membersTexts members

def itemsTexts :
    List Json → List (List UInt8)
| [] => []
| v :: rest => v.texts ++ itemsTexts rest

def membersTexts :
    List (List UInt8 × Json) → List (List UInt8)
| [] => []
| (name, v) :: rest =>
    name :: (v.texts ++ membersTexts rest)

end

theorem itemsSize_append
    (items : List Json)
    (v : Json) :
    itemsSize (items ++ [v]) = itemsSize items + v.size + 1 := by
  induction items with
  | nil => simp [itemsSize]
  | cons w items ih =>
      simp only [List.cons_append, itemsSize, ih]
      omega

theorem membersSize_append
    (members : Members)
    (name : List UInt8)
    (v : Json) :
    membersSize (members ++ [(name, v)]) =
      membersSize members + name.length + 3 + v.size + 1 := by
  induction members with
  | nil => simp [membersSize]
  | cons member members ih =>
      simp only [List.cons_append, membersSize, ih]
      omega

theorem itemsTexts_append
    (items : List Json)
    (v : Json) :
    itemsTexts (items ++ [v]) = itemsTexts items ++ v.texts := by
  induction items with
  | nil => simp [itemsTexts]
  | cons w items ih => simp [itemsTexts, ih]

theorem membersTexts_append
    (members : Members)
    (name : List UInt8)
    (v : Json) :
    membersTexts (members ++ [(name, v)]) =
      membersTexts members ++ name :: v.texts := by
  induction members with
  | nil => simp [membersTexts]
  | cons member members ih => simp [membersTexts, ih]

end Json

------------------------------------------------------------
-- Sizes Of States
------------------------------------------------------------

namespace Json

def arrSize
    (items : List Json) :
    Int :=
  if items.isEmpty then 1 else itemsSize items

def objSize
    (members : Members) :
    Int :=
  if members.isEmpty then 1 else membersSize members

def Frame.size :
    Frame → Int
| .item items => 1 + itemsSize items
| .member members name =>
    1 + membersSize members + name.length + 3

def Frame.texts :
    Frame → List (List UInt8)
| .item items => itemsTexts items
| .member members name => membersTexts members ++ [name]

def stackSize :
    List Frame → Int
| [] => 0
| frame :: rest => frame.size + stackSize rest

def stackTexts :
    List Frame → List (List UInt8)
| [] => []
| frame :: rest => frame.texts ++ stackTexts rest

/- The digits of an escape sequence that have been read. -/
def StrPc.size :
    StrPc → Int
| .hex _ digits _ => digits
| _ => 0

def ownerSize :
    Option Members → Int
| none => 1
| some members => 2 + membersSize members

def ownerTexts :
    Option Members → List (List UInt8)
| none => []
| some members => membersTexts members

def Mode.size :
    Mode → Int
| .value => 0
| .firstItem => 1
| .afterItem items => arrSize items
| .firstName => 1
| .name members => 1 + membersSize members
| .colon members label =>
    3 + membersSize members + label.length
| .afterMember members => objSize members
| .lit rest v => v.size - rest.length
| .num _ lexeme => lexeme.length
| .str owner text pc => ownerSize owner + text.length + pc.size
| .done v => v.size

def Mode.texts :
    Mode → List (List UInt8)
| .afterItem items => itemsTexts items
| .name members => membersTexts members
| .colon members label => membersTexts members ++ [label]
| .afterMember members => membersTexts members
| .lit _ v => v.texts
| .str owner text _ => ownerTexts owner ++ [text]
| .done v => v.texts
| _ => []

/- No escape sequence is being read. -/
def Mode.isPlain :
    Mode → Bool
| .str _ _ pc => pc.isPlain
| _ => true

def State.size
    (s : State) :
    Int :=
  s.mode.size + stackSize s.stack

/- All strings so far are of bytes that mean themselves. -/
structure State.Clean
    (s : State) :
    Prop where
  mode : s.mode.isPlain = true
  texts : ∀ x ∈ s.mode.texts, PlainText x
  stack : ∀ x ∈ stackTexts s.stack, PlainText x

theorem deliver_size
    (v : Json)
    (stack : List Frame) :
    (deliver v stack).size = stackSize stack + v.size := by
  cases stack with
  | nil => simp [deliver, State.size, Mode.size, stackSize]
  | cons frame rest =>
      cases frame with
      | item items =>
          simp [deliver, State.size, Mode.size, stackSize,
            Frame.size, arrSize, itemsSize_append]
          omega
      | member members name =>
          simp [deliver, State.size, Mode.size, stackSize,
            Frame.size, objSize, membersSize_append]
          omega

theorem deliver_clean
    {v : Json}
    {stack : List Frame}
    (hValue : ∀ x ∈ v.texts, PlainText x)
    (hStack : ∀ x ∈ stackTexts stack, PlainText x) :
    (deliver v stack).Clean := by
  cases stack with
  | nil => exact ⟨rfl, hValue, hStack⟩
  | cons frame rest =>
      have hFrame : ∀ x ∈ frame.texts, PlainText x :=
        fun x hMem => hStack x (List.mem_append_left _ hMem)
      have hRest : ∀ x ∈ stackTexts rest, PlainText x :=
        fun x hMem => hStack x (List.mem_append_right _ hMem)
      cases frame with
      | item items =>
          refine ⟨rfl, ?_, hRest⟩
          intro x hMem
          simp only [deliver, Mode.texts, itemsTexts_append,
            List.mem_append] at hMem
          rcases hMem with hOld | hNew
          · exact hFrame x hOld
          · exact hValue x hNew
      | member members name =>
          refine ⟨rfl, ?_, hRest⟩
          intro x hMem
          simp only [deliver, Mode.texts, membersTexts_append,
            List.mem_append, List.mem_cons] at hMem
          simp only [Frame.texts, List.mem_append,
            List.mem_singleton] at hFrame
          rcases hMem with hOld | hName | hNew
          · exact hFrame x (Or.inl hOld)
          · exact hFrame x (Or.inr hName)
          · exact hValue x hNew

end Json

------------------------------------------------------------
-- What A Byte Adds
------------------------------------------------------------

namespace Json

/-
  A step adds at most one, and if it does, it reads no escape
  sequence.
-/
structure Grows
    (s t : State) :
    Prop where
  size : t.size ≤ s.size + 1
  clean : t.size = s.size + 1 → s.Clean → t.Clean

variable {s t u : State}
variable {b : UInt8}

theorem grows_refl
    (s : State) :
    Grows s s where
  size := by omega
  clean := by
    intro h
    omega

/- States that count for the same. -/
theorem Grows.of_same
    (hGrows : Grows u t)
    (hSize : u.size = s.size)
    (hClean : s.Clean → u.Clean) :
    Grows s t where
  size := by
    rw [← hSize]
    exact hGrows.size
  clean := by
    intro h hStart
    rw [← hSize] at h
    exact hGrows.clean h (hClean hStart)

theorem grows_deliver
    {v : Json}
    {stack : List Frame}
    (hSize : v.size + stackSize stack ≤ s.size + 1)
    (hValue : s.Clean → ∀ x ∈ v.texts, PlainText x)
    (hStack : s.Clean → ∀ x ∈ stackTexts stack, PlainText x) :
    Grows s (deliver v stack) where
  size := by
    rw [deliver_size]
    omega
  clean := by
    intro _ hStart
    exact deliver_clean (hValue hStart) (hStack hStart)

theorem endValue_grows
    (h : endValue s b = some t) :
    Grows s t := by
  rcases s with ⟨mode, stack⟩
  cases mode with
  | done v =>
      simp only [endValue] at h
      split_ifs at h
      cases h
      exact grows_refl _
  | afterItem items =>
      simp only [endValue] at h
      split_ifs at h
      · cases h
        exact grows_refl _
      · cases h
        constructor
        · simp only [State.size, Mode.size, stackSize,
            Frame.size, arrSize]
          split_ifs with hNil
          · rw [List.isEmpty_iff] at hNil
            simp only [hNil, itemsSize]
            omega
          · omega
        · intro _ hStart
          refine ⟨rfl, (fun _ hNone => by cases hNone), ?_⟩
          intro x hMem
          rcases List.mem_append.mp hMem with hItem | hRest
          · exact hStart.texts x hItem
          · exact hStart.stack x hRest
      · cases h
        apply grows_deliver
        · simp only [Json.size, State.size, Mode.size, arrSize]
          omega
        · exact fun hStart => hStart.texts
        · exact fun hStart => hStart.stack
  | afterMember members =>
      simp only [endValue] at h
      split_ifs at h
      · cases h
        exact grows_refl _
      · cases h
        constructor
        · simp only [State.size, Mode.size, objSize]
          split_ifs with hNil
          · rw [List.isEmpty_iff] at hNil
            simp only [hNil, membersSize]
            omega
          · omega
        · intro _ hStart
          exact ⟨rfl, hStart.texts, hStart.stack⟩
      · cases h
        apply grows_deliver
        · simp only [Json.size, State.size, Mode.size, objSize]
          omega
        · exact fun hStart => hStart.texts
        · exact fun hStart => hStart.stack
  | _ => cases h

/- A mode that starts a value or a string. -/
theorem grows_mode
    {mode next : Mode}
    {stack : List Frame}
    (hSize : next.size ≤ mode.size + 1)
    (hPlain : next.isPlain = true)
    (hTexts :
      (∀ x ∈ mode.texts, PlainText x) → ∀ x ∈ next.texts, PlainText x) :
    Grows { mode := mode, stack := stack }
      { mode := next, stack := stack } where
  size := by
    simp only [State.size]
    omega
  clean := by
    intro _ hStart
    exact ⟨hPlain, hTexts hStart.texts, hStart.stack⟩

theorem beginValue_grows
    {limit : Option Nat}
    {stack : List Frame}
    (h : beginValue limit stack b = some t) :
    Grows { mode := .value, stack := stack } t := by
  rcases beginValue_opens h with ⟨mode, rfl, hOpens⟩
  cases hOpens
  all_goals
    apply grows_mode
    · simp [Mode.size, Json.size, StrPc.size, ownerSize]
    · rfl
    · simp [Mode.texts, Json.texts, ownerTexts, PlainText]

theorem addUnit_size
    (text : List UInt8)
    (high : Option Nat)
    (u : Nat) :
    ((addUnit text high u).1.length : Int) +
        (addUnit text high u).2.size ≤
      text.length + 4 := by
  have hChar :
      ∀ c, (String.utf8EncodeChar c).length ≤ 4 := by
    intro c
    rw [String.length_utf8EncodeChar]
    exact c.utf8Size_le_four
  have hReplace : replacement.length = 3 := rfl
  unfold addUnit
  cases hLow : lowSurrogate u with
  | true =>
      cases high with
      | none =>
          simp [StrPc.size, hReplace]
      | some h =>
          have hPair := hChar (surrogatePair h u)
          simp only [StrPc.size, List.length_append,
            List.length_take]
          push_cast
          omega
  | false =>
      have hUnit := hChar (.ofNat u)
      cases high with
      | none =>
          simp only
          split_ifs
          · simp [StrPc.size, hReplace]
          · simp only [StrPc.size, List.length_append]
            push_cast
            omega
      | some h =>
          simp only
          split_ifs
          · simp [StrPc.size, hReplace]
          · simp only [StrPc.size, List.length_append]
            push_cast
            omega

theorem strNext_grows
    {owner : Option Members}
    {text : List UInt8}
    {pc : StrPc}
    {stack : List Frame}
    {r : List UInt8 × StrPc}
    (hQuote : (pc.isPlain && decide (b = 34)) = false)
    (h : strNext text b pc = some r) :
    Grows { mode := .str owner text pc, stack := stack }
      { mode := .str owner r.1 r.2, stack := stack } := by
  cases pc with
  | plain high =>
      simp only [strNext] at h
      split_ifs at h with hSlash hControl
      · cases h
        constructor
        · simp only [State.size, Mode.size, StrPc.size]
          omega
        · intro hEq
          simp only [State.size, Mode.size, StrPc.size] at hEq
          omega
      · cases h
        apply grows_mode
        · simp [Mode.size, StrPc.size]
          omega
        · rfl
        · intro hTexts x hMem
          simp only [Mode.texts, List.mem_append,
            List.mem_singleton] at hMem hTexts
          rcases hMem with hOwner | rfl
          · exact hTexts x (Or.inl hOwner)
          · apply (hTexts text (Or.inr rfl)).append
            intro c hByte
            rw [List.mem_singleton] at hByte
            subst hByte
            refine ⟨?_, hSlash, UInt8.not_lt.mp hControl⟩
            simpa [StrPc.isPlain] using hQuote
  | escape high =>
      simp only [strNext] at h
      split_ifs at h
      · cases h
        constructor
        · simp only [State.size, Mode.size, StrPc.size]
          omega
        · intro _ hStart
          cases hStart.mode
      · rcases Option.map_eq_some_iff.mp h with ⟨c, _, hEq⟩
        cases hEq
        constructor
        · simp only [State.size, Mode.size, StrPc.size,
            List.length_append, List.length_singleton]
          omega
        · intro _ hStart
          cases hStart.mode
  | hex high digits code =>
      rcases Option.map_eq_some_iff.mp h with ⟨d, _, hEq⟩
      constructor
      · split_ifs at hEq with hDigits
        · have hSize := addUnit_size text high (16 * code + d)
          rw [hEq] at hSize
          have hRead : (StrPc.hex high digits code).size = 3 := by
            simp [StrPc.size, hDigits]
          simp only [State.size, Mode.size, hRead]
          omega
        · cases hEq
          simp only [State.size, Mode.size, StrPc.size]
          push_cast
          omega
      · intro _ hStart
        cases hStart.mode

/- A byte adds at most one to what has been read. -/
theorem step_grows
    {limit : Option Nat}
    (h : step limit s b = some t) :
    Grows s t := by
  rcases s with ⟨mode, stack⟩
  cases mode with
  | value =>
      simp only [step] at h
      split_ifs at h
      · cases h
        exact grows_refl _
      · exact beginValue_grows h
  | firstItem =>
      simp only [step] at h
      split_ifs at h
      · cases h
        exact grows_refl _
      · cases h
        apply grows_deliver
        · simp [Json.size, State.size, Mode.size]
          omega
        · intro _ x hMem
          cases hMem
        · exact fun hStart => hStart.stack
      · refine (beginValue_grows h).of_same ?_ ?_
        · simp [State.size, Mode.size, stackSize, Frame.size,
            itemsSize]
        · intro hStart
          exact ⟨rfl, hStart.texts, hStart.stack⟩
  | firstName =>
      simp only [step] at h
      split_ifs at h
      · cases h
        exact grows_refl _
      · cases h
        apply grows_mode
        · simp [Mode.size, StrPc.size, ownerSize, membersSize]
        · rfl
        · simp [Mode.texts, ownerTexts, membersTexts, PlainText]
      · cases h
        apply grows_deliver
        · simp [Json.size, State.size, Mode.size]
          omega
        · intro _ x hMem
          cases hMem
        · exact fun hStart => hStart.stack
  | name members =>
      simp only [step] at h
      split_ifs at h
      · cases h
        exact grows_refl _
      · cases h
        apply grows_mode
        · simp [Mode.size, StrPc.size, ownerSize]
          omega
        · rfl
        · intro hTexts x hMem
          rcases List.mem_append.mp hMem with hOwner | hNew
          · exact hTexts x hOwner
          · rw [List.mem_singleton] at hNew
            subst hNew
            exact plainText_nil
  | colon members label =>
      simp only [step] at h
      split_ifs at h
      · cases h
        exact grows_refl _
      · cases h
        constructor
        · simp only [State.size, Mode.size, stackSize,
            Frame.size]
          omega
        · intro _ hStart
          refine ⟨rfl, (fun _ hNone => by cases hNone), ?_⟩
          intro x hMem
          rcases List.mem_append.mp hMem with hFrame | hRest
          · exact hStart.texts x hFrame
          · exact hStart.stack x hRest
  | lit rest v =>
      cases rest with
      | nil => cases h
      | cons c more =>
          simp only [step] at h
          split_ifs at h
          cases more with
          | nil =>
              cases h
              apply grows_deliver
              · simp [State.size, Mode.size]
                omega
              · exact fun hStart => hStart.texts
              · exact fun hStart => hStart.stack
          | cons d more =>
              cases h
              apply grows_mode
              · simp [Mode.size]
                omega
              · rfl
              · exact fun hTexts => hTexts
  | num pc lexeme =>
      simp only [step] at h
      cases hNext : numNext pc b with
      | some next =>
          rw [hNext] at h
          cases h
          apply grows_mode
          · simp [Mode.size]
          · rfl
          · exact fun hTexts => hTexts
      | none =>
          simp only [hNext] at h
          split_ifs at h
          refine (endValue_grows h).of_same ?_ ?_
          · rw [deliver_size]
            simp only [Json.size, State.size, Mode.size]
            omega
          · intro hStart
            apply deliver_clean
            · intro x hMem
              cases hMem
            · exact hStart.stack
  | str owner text pc =>
      simp only [step] at h
      split_ifs at h with hQuote
      · cases h
        rw [Bool.and_eq_true] at hQuote
        cases pc with
        | plain high =>
            cases owner with
            | none =>
                apply grows_deliver
                · simp [Json.size, State.size, Mode.size,
                    StrPc.size, ownerSize]
                  omega
                · exact fun hStart => hStart.texts
                · exact fun hStart => hStart.stack
            | some members =>
                apply grows_mode
                · simp [Mode.size, StrPc.size, ownerSize]
                  omega
                · rfl
                · exact fun hTexts => hTexts
        | escape high => cases hQuote.1
        | hex high digits code => cases hQuote.1
      · rcases Option.map_eq_some_iff.mp h with ⟨r, hNext, hEq⟩
        cases hEq
        exact
          strNext_grows (Bool.eq_false_iff.mpr hQuote) hNext
  | afterItem items => exact endValue_grows h
  | afterMember members => exact endValue_grows h
  | done v => exact endValue_grows h

end Json

------------------------------------------------------------
-- Lengths Of Texts
------------------------------------------------------------

namespace Json

variable {limit : Option Nat}
variable {s t : State}
variable {text : List UInt8}
variable {v : Json}

theorem exec_grows
    (h : (reader limit).exec s text = some t) :
    t.size ≤ s.size + text.length ∧
      (t.size = s.size + text.length →
        s.Clean → t.Clean) := by
  induction text generalizing s with
  | nil =>
      have hEq : s = t := by simpa using h
      subst hEq
      exact ⟨by simp, fun _ hStart => hStart⟩
  | cons b text ih =>
      rcases Machine.exec_cons.mp h with ⟨u, hStep, hRest⟩
      have hFirst := step_grows hStep
      have hSize := hFirst.size
      rcases ih hRest with ⟨hLast, hClean⟩
      rw [List.length_cons]
      push_cast
      refine ⟨by omega, ?_⟩
      intro hEq hStart
      have hMid : u.size = s.size + 1 := by omega
      exact hClean (by omega) (hFirst.clean hMid hStart)

/- What is read at the end is what the state counts for. -/
theorem finish_eq_some
    (h : finish s = some v) :
    s.size = v.size ∧ (s.Clean → ∀ x ∈ v.texts, PlainText x) := by
  rcases s with ⟨mode, stack⟩
  unfold finish at h
  split_ifs at h with hStack
  rw [List.isEmpty_iff] at hStack
  subst hStack
  cases mode with
  | done w =>
      cases h
      exact
        ⟨by simp [State.size, Mode.size, stackSize],
          fun hStart => hStart.texts⟩
  | num pc lexeme =>
      simp only at h
      split_ifs at h
      cases h
      refine
        ⟨by simp [State.size, Mode.size, stackSize, Json.size],
          ?_⟩
      intro _ x hMem
      cases hMem
  | _ => cases h

theorem start_clean :
    start.Clean :=
  ⟨rfl, (fun _ hNone => by cases hNone),
    fun _ hNone => by cases hNone⟩

/- In a shortest text, strings are written as they are. -/
theorem plain_of_length_le
    (h : read limit text = some v)
    (hLength : text.length ≤ v.size) :
    ∀ x ∈ v.texts, PlainText x := by
  rcases Option.bind_eq_some_iff.mp h with ⟨s, hExec, hFinish⟩
  rcases finish_eq_some hFinish with ⟨hSize, hTexts⟩
  rcases exec_grows hExec with ⟨hLe, hClean⟩
  have hStart : start.size = 0 := rfl
  exact hTexts (hClean (by omega) start_clean)

end Json
