import CacheServer.Lib.Json

/-
  How deep the containers of a JSON value are nested.

  A reader with a limit reads a text exactly if a reader
  without one does and the value is not nested deeper than
  the limit.

  Key definitions include:
    * `Json.depth`
    * `Json.State.depth`

  Key theorems include:
    * `Json.step_depth`
    * `Json.read_limit_iff`
-/

------------------------------------------------------------
-- Depths Of Values
------------------------------------------------------------

namespace Json

mutual

/- The number of containers around the innermost value. -/
def depth :
    Json → Nat
| .null => 0
| .bool _ => 0
| .num _ => 0
| .str _ => 0
| .arr items => itemsDepth items + 1
| .obj members => membersDepth members + 1

def itemsDepth :
    List Json → Nat
| [] => 0
| v :: rest => max v.depth (itemsDepth rest)

def membersDepth :
    List (List UInt8 × Json) → Nat
| [] => 0
| (_, v) :: rest => max v.depth (membersDepth rest)

end

theorem itemsDepth_append
    (items : List Json)
    (v : Json) :
    itemsDepth (items ++ [v]) =
      max (itemsDepth items) v.depth := by
  induction items with
  | nil => simp [itemsDepth]
  | cons w items ih =>
      simp only [List.cons_append, itemsDepth, ih]
      omega

theorem membersDepth_append
    (members : Members)
    (name : List UInt8)
    (v : Json) :
    membersDepth (members ++ [(name, v)]) =
      max (membersDepth members) v.depth := by
  induction members with
  | nil => simp [membersDepth]
  | cons member members ih =>
      simp only [List.cons_append, membersDepth, ih]
      omega

end Json

------------------------------------------------------------
-- Depths Of States
------------------------------------------------------------

namespace Json

/- The depth of what a container holds so far. -/
def Frame.depth :
    Frame → Nat
| .item items => itemsDepth items
| .member members _ => membersDepth members

def stackDepth :
    List Frame → Nat
| [] => 0
| frame :: rest =>
    max (rest.length + 1 + frame.depth) (stackDepth rest)

/- The depth of what is read inside so many containers. -/
def Mode.depth
    (around : Nat) :
    Mode → Nat
| .value => around
| .firstItem => around + 1
| .afterItem items => around + 1 + itemsDepth items
| .firstName => around + 1
| .name members => around + 1 + membersDepth members
| .colon members _ => around + 1 + membersDepth members
| .afterMember members => around + 1 + membersDepth members
| .lit _ v => around + v.depth
| .num _ _ => around
| .str none _ _ => around
| .str (some members) _ _ =>
    around + 1 + membersDepth members
| .done v => around + v.depth

def State.depth
    (s : State) :
    Nat :=
  max (s.mode.depth s.stack.length) (stackDepth s.stack)

theorem deliver_depth
    (v : Json)
    (stack : List Frame) :
    (deliver v stack).depth =
      max (stack.length + v.depth) (stackDepth stack) := by
  cases stack with
  | nil => simp [deliver, State.depth, Mode.depth, stackDepth]
  | cons frame rest =>
      cases frame with
      | item items =>
          simp only [deliver, State.depth, Mode.depth,
            itemsDepth_append, stackDepth, Frame.depth,
            List.length_cons]
          omega
      | member members name =>
          simp only [deliver, State.depth, Mode.depth,
            membersDepth_append, stackDepth, Frame.depth,
            List.length_cons]
          omega

theorem length_le_stackDepth
    (stack : List Frame) :
    stack.length ≤ stackDepth stack := by
  cases stack with
  | nil => simp [stackDepth]
  | cons frame rest =>
      simp only [List.length_cons, stackDepth]
      omega

end Json

------------------------------------------------------------
-- Depths Along A Text
------------------------------------------------------------

namespace Json

variable {s t : State}
variable {b : UInt8}
variable {limit : Option Nat}

/- What a step does to the depth that has been reached. -/
structure Deepens
    (limit : Option Nat)
    (s t : State) :
    Prop where
  le : s.depth ≤ t.depth
  within : ∀ n, limit = some n → s.depth ≤ n → t.depth ≤ n

theorem Deepens.of_eq
    (hSame : t.depth = s.depth) :
    Deepens limit s t :=
  ⟨by omega, fun n _ hLe => by omega⟩

theorem endValue_depth
    (h : endValue s b = some t) :
    t.depth = s.depth := by
  rcases s with ⟨mode, stack⟩
  have hStack := length_le_stackDepth stack
  cases mode with
  | done v =>
      simp only [endValue] at h
      split_ifs at h
      cases h
      rfl
  | afterItem items =>
      simp only [endValue] at h
      split_ifs at h
      · cases h
        rfl
      · cases h
        simp only [State.depth, Mode.depth, stackDepth,
          Frame.depth, List.length_cons]
        omega
      · cases h
        rw [deliver_depth]
        simp only [State.depth, Mode.depth, Json.depth]
        omega
  | afterMember members =>
      simp only [endValue] at h
      split_ifs at h
      · cases h
        rfl
      · cases h
        rfl
      · cases h
        rw [deliver_depth]
        simp only [State.depth, Mode.depth, Json.depth]
        omega
  | _ => cases h

/- A container is opened if there is room for one more. -/
theorem openContainer_within
    {mode : Mode}
    {stack : List Frame}
    {n : Nat}
    (h : openContainer (some n) mode stack = some t) :
    stack.length < n := by
  unfold openContainer at h
  split_ifs at h with hWithin
  simpa [within] using hWithin

/- A value begins where it is, or opens one more container. -/
theorem beginValue_depth
    {stack : List Frame}
    (h : beginValue limit stack b = some t) :
    stackDepth stack ≤ t.depth ∧
      ∀ n, limit = some n → stackDepth stack ≤ n →
        t.depth ≤ n := by
  have hStack := length_le_stackDepth stack
  rcases beginValue_opens h with ⟨mode, rfl, hOpens⟩
  refine ⟨Nat.le_max_right _ _, ?_⟩
  intro n hLimit hLe
  subst hLimit
  cases hOpens with
  | array =>
      have hRoom := openContainer_within h
      simp only [State.depth, Mode.depth]
      omega
  | object =>
      have hRoom := openContainer_within h
      simp only [State.depth, Mode.depth]
      omega
  | _ =>
      simp only [State.depth, Mode.depth, Json.depth]
      omega

/- No step loses depth; with a limit, none goes beyond it. -/
theorem step_depth
    (h : step limit s b = some t) :
    Deepens limit s t := by
  rcases s with ⟨mode, stack⟩
  have hStack := length_le_stackDepth stack
  cases mode with
  | value =>
      simp only [step] at h
      split_ifs at h
      · cases h
        exact .of_eq rfl
      · rcases beginValue_depth h with ⟨hLe, hWithin⟩
        have hSame :
            State.depth { mode := .value, stack := stack } =
              stackDepth stack := by
          simp only [State.depth, Mode.depth]
          omega
        exact
          ⟨by omega,
            fun n hLimit hDepth => hWithin n hLimit (by omega)⟩
  | firstItem =>
      simp only [step] at h
      split_ifs at h
      · cases h
        exact .of_eq rfl
      · cases h
        apply Deepens.of_eq
        rw [deliver_depth]
        simp only [State.depth, Mode.depth, Json.depth,
          itemsDepth]
      · rcases beginValue_depth h with ⟨hLe, hWithin⟩
        have hSame :
            State.depth { mode := .firstItem, stack := stack } =
              stackDepth (.item [] :: stack) := by
          simp only [State.depth, Mode.depth, stackDepth,
            Frame.depth, itemsDepth]
        exact
          ⟨by omega,
            fun n hLimit hDepth => hWithin n hLimit (by omega)⟩
  | firstName =>
      simp only [step] at h
      split_ifs at h
      · cases h
        exact .of_eq rfl
      · cases h
        exact .of_eq rfl
      · cases h
        apply Deepens.of_eq
        rw [deliver_depth]
        simp only [State.depth, Mode.depth, Json.depth,
          membersDepth]
  | name members =>
      simp only [step] at h
      split_ifs at h
      · cases h
        exact .of_eq rfl
      · cases h
        exact .of_eq rfl
  | colon members label =>
      simp only [step] at h
      split_ifs at h
      · cases h
        exact .of_eq rfl
      · cases h
        apply Deepens.of_eq
        simp only [State.depth, Mode.depth, stackDepth,
          Frame.depth, List.length_cons]
        omega
  | lit rest v =>
      cases rest with
      | nil => cases h
      | cons c more =>
          simp only [step] at h
          split_ifs at h
          cases more with
          | nil =>
              cases h
              apply Deepens.of_eq
              exact deliver_depth v stack
          | cons d more =>
              cases h
              exact .of_eq rfl
  | num pc lexeme =>
      simp only [step] at h
      cases hNext : numNext pc b with
      | some next =>
          rw [hNext] at h
          cases h
          exact .of_eq rfl
      | none =>
          simp only [hNext] at h
          split_ifs at h
          apply Deepens.of_eq
          rw [endValue_depth h, deliver_depth]
          rfl
  | str owner text pc =>
      simp only [step] at h
      split_ifs at h with hQuote
      · cases h
        apply Deepens.of_eq
        cases owner with
        | none => exact deliver_depth _ _
        | some members => rfl
      · rcases Option.map_eq_some_iff.mp h with ⟨r, _, hEq⟩
        cases hEq
        apply Deepens.of_eq
        cases owner with
        | none => rfl
        | some members => rfl
  | afterItem items => exact .of_eq (endValue_depth h)
  | afterMember members => exact .of_eq (endValue_depth h)
  | done v => exact .of_eq (endValue_depth h)

/- A container that is deep enough in the end may be opened. -/
theorem openContainer_limited
    {mode : Mode}
    {stack : List Frame}
    {n : Nat}
    (hMode : stack.length < mode.depth stack.length)
    (hDepth : t.depth ≤ n)
    (h : openContainer none mode stack = some t) :
    openContainer (some n) mode stack = some t := by
  have hEq := openContainer_eq h
  subst hEq
  simp only [State.depth] at hDepth
  have hRoom : within (some n) stack = true := by
    simp only [within, decide_eq_true_eq]
    omega
  unfold openContainer
  rw [if_pos hRoom]

theorem beginValue_limited
    {stack : List Frame}
    {n : Nat}
    (hDepth : t.depth ≤ n)
    (h : beginValue none stack b = some t) :
    beginValue (some n) stack b = some t := by
  revert h
  unfold beginValue
  repeat' apply ite_eq_some_imp
  all_goals
    first
    | exact id
    | exact openContainer_limited (Nat.lt_succ_self _) hDepth

/- What stays within a limit is read with the limit, too. -/
theorem step_limited
    {n : Nat}
    (hDepth : t.depth ≤ n)
    (h : step none s b = some t) :
    step (some n) s b = some t := by
  rcases s with ⟨mode, stack⟩
  cases mode with
  | value =>
      simp only [step] at h ⊢
      split_ifs at h ⊢
      · exact h
      · exact beginValue_limited hDepth h
  | firstItem =>
      simp only [step] at h ⊢
      split_ifs at h ⊢
      · exact h
      · exact h
      · exact beginValue_limited hDepth h
  | lit rest v =>
      cases rest with
      | nil => exact h
      | cons c more => exact h
  | _ => exact h

theorem exec_depth
    {text : List UInt8}
    (h : (reader limit).exec s text = some t) :
    Deepens limit s t := by
  induction text generalizing s with
  | nil =>
      have hEq : s = t := by simpa using h
      subst hEq
      exact .of_eq rfl
  | cons b text ih =>
      rcases Machine.exec_cons.mp h with ⟨u, hStep, hRest⟩
      have hFirst := step_depth hStep
      have hLast := ih hRest
      exact
        ⟨Nat.le_trans hFirst.le hLast.le,
          fun n hLimit hLe =>
            hLast.within n hLimit (hFirst.within n hLimit hLe)⟩

theorem exec_limited
    {text : List UInt8}
    {n : Nat}
    (hDepth : t.depth ≤ n)
    (h : (reader none).exec s text = some t) :
    (reader (some n)).exec s text = some t := by
  induction text generalizing s with
  | nil => exact h
  | cons b text ih =>
      rcases Machine.exec_cons.mp h with ⟨u, hStep, hRest⟩
      have hMid : u.depth ≤ n :=
        Nat.le_trans (exec_depth hRest).le hDepth
      exact
        Machine.exec_cons.mpr
          ⟨u, step_limited hMid hStep, ih hRest⟩

end Json

------------------------------------------------------------
-- Texts Within A Limit
------------------------------------------------------------

namespace Json

theorem finish_depth
    {s : State}
    {v : Json}
    (h : finish s = some v) :
    s.depth = v.depth := by
  rcases s with ⟨mode, stack⟩
  unfold finish at h
  split_ifs at h with hStack
  rw [List.isEmpty_iff] at hStack
  subst hStack
  cases mode with
  | done w =>
      cases h
      simp [State.depth, Mode.depth, stackDepth]
  | num pc lexeme =>
      simp only at h
      split_ifs at h
      cases h
      rfl
  | _ => cases h

/- A limit admits the values that are no deeper. -/
theorem read_limit_iff
    {n : Nat}
    {text : List UInt8}
    {v : Json} :
    read (some n) text = some v ↔
      read none text = some v ∧ v.depth ≤ n := by
  constructor
  · intro h
    rcases Option.bind_eq_some_iff.mp h with
      ⟨s, hExec, hFinish⟩
    refine ⟨read_unlimited h, ?_⟩
    rw [← finish_depth hFinish]
    exact (exec_depth hExec).within n rfl (Nat.zero_le n)
  · intro h
    rcases h with ⟨hRead, hDepth⟩
    rcases Option.bind_eq_some_iff.mp hRead with
      ⟨s, hExec, hFinish⟩
    rw [← finish_depth hFinish] at hDepth
    exact
      Option.bind_eq_some_iff.mpr
        ⟨s, exec_limited hDepth hExec, hFinish⟩

end Json
