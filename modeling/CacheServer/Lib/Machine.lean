import Mathlib.Algebra.GroupWithZero.Nat

/-
  Labelled machines: a partial step function and its runs.

  A machine takes one action at a time. Nondeterminism is
  carried by the action, so a run is a list of actions and
  can be evaluated. Interleavings of concurrent parties are
  the action lists over the union of the parties' actions.

  Key definitions include:
    * `Machine.exec`
    * `Machine.Along`
    * `Machine.Always`
    * `Machine.withHistory`
    * `Machine.LeadsTo`
    * `Machine.Amortized`
    * `Machine.Reaches`

  Key theorems include:
    * `Machine.exec_append`
    * `Machine.along_append`
    * `Machine.exec_invariant`
    * `Machine.exec_invariant_along`
    * `Machine.along_of_invariant`
    * `Machine.always_iff_along`
    * `Machine.along_or_marked`
    * `Machine.exec_relation`
    * `Machine.leadsTo_of_rank`
    * `Machine.exec_amortized`
    * `Machine.exists_run_of_amortized`
    * `Machine.exec_simulates`
-/

------------------------------------------------------------
-- Machines And Runs
------------------------------------------------------------

/- A deterministic step on states, partial in the action. -/
structure Machine (σ α : Type) where
  step : σ → α → Option σ

namespace Machine

variable {σ α : Type}
variable {m : Machine σ α}

/- Take the actions of a list one after the other. -/
def exec (m : Machine σ α) : σ → List α → Option σ
| s, [] => some s
| s, a :: as => (m.step s a).bind (fun s' => m.exec s' as)

/- `P` holds of every state and action met on the run. -/
def Along
    (m : Machine σ α)
    (P : σ → α → Prop) :
    σ → List α → Prop
| _, [] => True
| s, a :: as =>
    P s a ∧ ∀ s', m.step s a = some s' → m.Along P s' as

@[simp] theorem exec_nil
    (s : σ) :
    m.exec s [] = some s := rfl

theorem exec_cons
    {s s' : σ}
    {a : α}
    {as : List α} :
    m.exec s (a :: as) = some s' ↔
      ∃ t, m.step s a = some t ∧ m.exec t as = some s' := by
  simp [exec, Option.bind_eq_some_iff]

theorem exec_append
    {s s' : σ}
    {as bs : List α} :
    m.exec s (as ++ bs) = some s' ↔
      ∃ t, m.exec s as = some t ∧ m.exec t bs = some s' := by
  induction as generalizing s with
  | nil =>
      simp
  | cons a as ih =>
      constructor
      · intro h
        rcases exec_cons.mp h with ⟨u, hStep, hRest⟩
        rcases ih.mp hRest with ⟨t, hFirst, hLast⟩
        exact ⟨t, exec_cons.mpr ⟨u, hStep, hFirst⟩, hLast⟩
      · intro h
        rcases h with ⟨t, hFirst, hLast⟩
        rcases exec_cons.mp hFirst with ⟨u, hStep, hRest⟩
        exact
          exec_cons.mpr
            ⟨u, hStep, ih.mpr ⟨t, hRest, hLast⟩⟩

/- A run that does not get stuck ends in its final state. -/
theorem exec_get
    {s : σ}
    {as : List α}
    (h : (m.exec s as).isSome = true) :
    m.exec s as = some ((m.exec s as).get h) :=
  (Option.some_get h).symm

theorem along_append
    {P : σ → α → Prop}
    {s t : σ}
    {as bs : List α}
    (hRun : m.exec s as = some t) :
    m.Along P s (as ++ bs) ↔
      m.Along P s as ∧ m.Along P t bs := by
  induction as generalizing s with
  | nil =>
      have hEq : s = t := by simpa using hRun
      subst hEq
      simp [Along]
  | cons a as ih =>
      rcases exec_cons.mp hRun with ⟨u, hStep, hRest⟩
      have hTail := ih hRest
      constructor
      · intro h
        have hSplit := hTail.mp (h.2 u hStep)
        refine ⟨⟨h.1, ?_⟩, hSplit.2⟩
        intro s' hs'
        rw [hStep] at hs'
        cases hs'
        exact hSplit.1
      · intro h
        refine ⟨h.1.1, ?_⟩
        intro s' hs'
        have hEq : u = s' := by simpa [hStep] using hs'
        subst hEq
        exact hTail.mpr ⟨h.1.2 u hStep, h.2⟩

/- Whether a decidable condition holds along a run. -/
instance decidableAlong
    (m : Machine σ α)
    (P : σ → α → Prop)
    [∀ s a, Decidable (P s a)] :
    ∀ s as, Decidable (m.Along P s as)
| _, [] => isTrue trivial
| s, a :: as =>
    match h : m.step s a with
    | none =>
        decidable_of_iff (P s a) (by simp [Along, h])
    | some t =>
        have := decidableAlong m P t as
        decidable_of_iff (P s a ∧ m.Along P t as)
          (by simp [Along, h])

/- A condition on actions alone holds along every run. -/
theorem along_of_forall_mem
    {P : α → Prop}
    {s : σ}
    {as : List α}
    (h : ∀ a ∈ as, P a) :
    m.Along (fun _ a => P a) s as := by
  induction as generalizing s with
  | nil => trivial
  | cons a as ih =>
      refine ⟨h a (by simp), fun s' _ => ih ?_⟩
      intro b hb
      exact h b (List.mem_cons_of_mem a hb)

theorem Along.and
    {P Q : σ → α → Prop}
    {s : σ}
    {as : List α}
    (hP : m.Along P s as)
    (hQ : m.Along Q s as) :
    m.Along (fun s a => P s a ∧ Q s a) s as := by
  induction as generalizing s with
  | nil => trivial
  | cons a as ih =>
      exact
        ⟨⟨hP.1, hQ.1⟩,
          fun s' hs' => ih (hP.2 s' hs') (hQ.2 s' hs')⟩

end Machine

------------------------------------------------------------
-- Invariants
------------------------------------------------------------

namespace Machine

variable {σ α : Type}
variable {m : Machine σ α}

/-
  A property that every step allowed by `P` preserves holds
  at the end of every run whose steps `P` allows.
-/
theorem exec_invariant_along
    {I : σ → Prop}
    {P : σ → α → Prop}
    (hStep :
      ∀ s a s',
        I s → P s a → m.step s a = some s' → I s')
    {s s' : σ}
    {as : List α}
    (hAlong : m.Along P s as)
    (hRun : m.exec s as = some s')
    (hInit : I s) :
    I s' := by
  induction as generalizing s with
  | nil =>
      have hEq : s = s' := by simpa using hRun
      exact hEq ▸ hInit
  | cons a as ih =>
      rcases exec_cons.mp hRun with ⟨t, hFirst, hRest⟩
      exact
        ih (hAlong.2 t hFirst) hRest
          (hStep s a t hInit hAlong.1 hFirst)

/- A property that every step preserves holds after a run. -/
theorem exec_invariant
    {I : σ → Prop}
    (hStep :
      ∀ s a s', I s → m.step s a = some s' → I s')
    {s s' : σ}
    {as : List α}
    (hRun : m.exec s as = some s')
    (hInit : I s) :
    I s' :=
  exec_invariant_along
    (P := fun _ _ => True)
    (fun s a s' hI _ h => hStep s a s' hI h)
    (along_of_forall_mem (fun _ _ => trivial))
    hRun hInit

/-
  A law that the invariant and the condition give for one
  step holds of every step of the run.
-/
theorem along_of_invariant
    {I : σ → Prop}
    {P Q : σ → α → Prop}
    (hStep :
      ∀ s a s',
        I s → P s a → m.step s a = some s' → I s')
    (hLaw : ∀ s a, I s → P s a → Q s a)
    {s : σ}
    {as : List α}
    (hAlong : m.Along P s as)
    (hInit : I s) :
    m.Along Q s as := by
  induction as generalizing s with
  | nil => trivial
  | cons a as ih =>
      refine ⟨hLaw s a hInit hAlong.1, ?_⟩
      intro s' hs'
      exact
        ih (hAlong.2 s' hs')
          (hStep s a s' hInit hAlong.1 hs')

/- `I` holds of every state that the run goes through. -/
def Always
    (m : Machine σ α)
    (I : σ → Prop) :
    σ → List α → Prop
| s, [] => I s
| s, a :: as =>
    I s ∧ ∀ s', m.step s a = some s' → m.Always I s' as

/-
  A property that exactly the steps allowed by `P` preserve
  holds throughout exactly the runs whose steps `P` allows.
-/
theorem always_iff_along
    {I : σ → Prop}
    {P : σ → α → Prop}
    (hStep :
      ∀ s a s',
        I s → m.step s a = some s' → (I s' ↔ P s a))
    {s s' : σ}
    {as : List α}
    (hRun : m.exec s as = some s')
    (hInit : I s) :
    m.Always I s as ↔ m.Along P s as := by
  induction as generalizing s with
  | nil => exact iff_of_true hInit trivial
  | cons a as ih =>
      rcases exec_cons.mp hRun with ⟨t, hFirst, hRest⟩
      have hNext := hStep s a t hInit hFirst
      constructor
      · intro h
        have hTail := h.2 t hFirst
        have hT : I t := by
          cases as with
          | nil => exact hTail
          | cons b bs => exact hTail.1
        refine ⟨hNext.mp hT, fun u hU => ?_⟩
        rw [hFirst] at hU
        cases hU
        exact (ih hRest hT).mp hTail
      · intro h
        refine ⟨hInit, fun u hU => ?_⟩
        rw [hFirst] at hU
        cases hU
        exact
          (ih hRest (hNext.mpr h.1)).mpr (h.2 t hFirst)

/-
  A run whose steps `P` allows ends in a clean state; a step
  that it does not allow leaves a mark that stays.
-/
theorem along_or_marked
    {P : σ → α → Prop}
    {Clean Marked : σ → Prop}
    (hKeeps :
      ∀ s a s',
        Clean s → P s a → m.step s a = some s' → Clean s')
    (hBreaks :
      ∀ s a s',
        Clean s → ¬ P s a → m.step s a = some s' →
          Marked s')
    (hMarked :
      ∀ s a s', Marked s → m.step s a = some s' → Marked s')
    {s s' : σ}
    {as : List α}
    (hRun : m.exec s as = some s')
    (hInit : Clean s) :
    (m.Along P s as ∧ Clean s') ∨
      (¬ m.Along P s as ∧ Marked s') := by
  induction as generalizing s with
  | nil =>
      have hEq : s = s' := by simpa using hRun
      exact Or.inl ⟨trivial, hEq ▸ hInit⟩
  | cons a as ih =>
      rcases exec_cons.mp hRun with ⟨t, hFirst, hRest⟩
      by_cases hAllowed : P s a
      · rcases ih hRest (hKeeps s a t hInit hAllowed hFirst)
          with ⟨hAlong, hClean⟩ | ⟨hNot, hMark⟩
        · refine Or.inl ⟨⟨hAllowed, fun u hU => ?_⟩, hClean⟩
          rw [hFirst] at hU
          cases hU
          exact hAlong
        · refine Or.inr ⟨fun hAlong => ?_, hMark⟩
          exact hNot (hAlong.2 t hFirst)
      · refine Or.inr ⟨fun hAlong => hAllowed hAlong.1, ?_⟩
        exact
          exec_invariant hMarked hRest
            (hBreaks s a t hInit hAllowed hFirst)

/- A preorder that every step respects relates a run's ends. -/
theorem exec_relation
    {R : σ → σ → Prop}
    (hRefl : ∀ s, R s s)
    (hTrans : ∀ s t u, R s t → R t u → R s u)
    (hStep : ∀ s a s', m.step s a = some s' → R s s')
    {s s' : σ}
    {as : List α}
    (hRun : m.exec s as = some s') :
    R s s' := by
  induction as generalizing s with
  | nil =>
      have hEq : s = s' := by simpa using hRun
      exact hEq ▸ hRefl s
  | cons a as ih =>
      rcases exec_cons.mp hRun with ⟨t, hFirst, hRest⟩
      exact
        hTrans s t s' (hStep s a t hFirst) (ih hRest)

end Machine

------------------------------------------------------------
-- Histories
------------------------------------------------------------

namespace Machine

variable {σ α β : Type}
variable {m : Machine σ α}

/- The machine that also keeps a history of its steps. -/
def withHistory
    (m : Machine σ α)
    (record : σ → α → β → β) :
    Machine (σ × β) α :=
  { step := fun s a =>
      (m.step s.1 a).map (fun t => (t, record s.1 a s.2)) }

theorem withHistory_step
    {record : σ → α → β → β}
    {s s' : σ × β}
    {a : α} :
    (m.withHistory record).step s a = some s' ↔
      m.step s.1 a = some s'.1 ∧ s'.2 = record s.1 a s.2 := by
  rcases s' with ⟨t, history⟩
  constructor
  · intro h
    rcases Option.map_eq_some_iff.mp h with ⟨u, hStep, hEq⟩
    cases hEq
    exact ⟨hStep, rfl⟩
  · intro h
    rcases h with ⟨hStep, rfl⟩
    exact Option.map_eq_some_iff.mpr ⟨t, hStep, rfl⟩

/- Keeping a history does not change the runs. -/
theorem exec_of_withHistory
    {record : σ → α → β → β}
    {s s' : σ × β}
    {as : List α}
    (h : (m.withHistory record).exec s as = some s') :
    m.exec s.1 as = some s'.1 := by
  induction as generalizing s with
  | nil =>
      have hEq : s = s' := by simpa using h
      simp [hEq]
  | cons a as ih =>
      rcases exec_cons.mp h with ⟨t, hStep, hRest⟩
      exact
        exec_cons.mpr
          ⟨t.1, (withHistory_step.mp hStep).1, ih hRest⟩

/- Every run can be taken with a history. -/
theorem exec_withHistory
    {record : σ → α → β → β}
    {s s' : σ}
    {as : List α}
    (history : β)
    (h : m.exec s as = some s') :
    ∃ history',
      (m.withHistory record).exec (s, history) as =
        some (s', history') := by
  induction as generalizing s history with
  | nil =>
      have hEq : s = s' := by simpa using h
      exact ⟨history, by simp [hEq]⟩
  | cons a as ih =>
      rcases exec_cons.mp h with ⟨t, hStep, hRest⟩
      rcases ih (record s a history) hRest with
        ⟨history', hRun⟩
      exact
        ⟨history',
          exec_cons.mpr
            ⟨(t, record s a history),
              withHistory_step.mpr ⟨hStep, rfl⟩, hRun⟩⟩

end Machine

------------------------------------------------------------
-- Progress
------------------------------------------------------------

namespace Machine

variable {σ α : Type}

/-
  Every action of `Own` can be taken, and taking them one
  after the other ends in `Goal`, whichever they are.
-/
inductive LeadsTo
    (m : Machine σ α)
    (Own : α → Prop)
    (Goal : σ → Prop) :
    σ → Prop
| here
    {s : σ}
    (hGoal : Goal s) :
    LeadsTo m Own Goal s
| next
    {s : σ}
    (hEnabled : ∀ a, Own a → ∃ t, m.step s a = some t)
    (hStep :
      ∀ a t,
        Own a → m.step s a = some t → LeadsTo m Own Goal t) :
    LeadsTo m Own Goal s

/- Each action of `Own` can be taken and leads there. -/
theorem LeadsTo.of_step
    {m : Machine σ α}
    {Own : α → Prop}
    {Goal : σ → Prop}
    {s : σ}
    (h :
      ∀ a,
        Own a →
          ∃ t, m.step s a = some t ∧ m.LeadsTo Own Goal t) :
    m.LeadsTo Own Goal s := by
  apply LeadsTo.next
  · intro a hOwn
    rcases h a hOwn with ⟨t, hStep, _⟩
    exact ⟨t, hStep⟩
  · intro a t hOwn hStep
    rcases h a hOwn with ⟨u, hOther, hRest⟩
    rw [hStep] at hOther
    cases hOther
    exact hRest

/- Repeating one action of `Own` gets there. -/
theorem LeadsTo.exists_run
    {m : Machine σ α}
    {Own : α → Prop}
    {Goal : σ → Prop}
    {s : σ}
    {a : α}
    (hOwn : Own a)
    (h : m.LeadsTo Own Goal s) :
    ∃ n t, m.exec s (List.replicate n a) = some t ∧ Goal t := by
  induction h with
  | here hGoal => exact ⟨0, _, rfl, hGoal⟩
  | next hEnabled hStep ih =>
      rcases hEnabled a hOwn with ⟨t, hFirst⟩
      rcases ih a t hOwn hFirst with ⟨n, u, hRest, hGoal⟩
      exact
        ⟨n + 1, u, exec_cons.mpr ⟨t, hFirst, hRest⟩, hGoal⟩

/- A rank that drops with each action of `Own` runs out. -/
theorem leadsTo_of_rank
    {m : Machine σ α}
    {Own : α → Prop}
    {Goal : σ → Prop}
    {I : Nat → σ → Prop}
    (hZero : ∀ s, I 0 s → Goal s)
    (hSucc :
      ∀ n s,
        I (n + 1) s →
          Goal s ∨
            ∀ a, Own a → ∃ t, m.step s a = some t ∧ I n t)
    {n : Nat}
    {s : σ}
    (hRank : I n s) :
    m.LeadsTo Own Goal s := by
  induction n generalizing s with
  | zero => exact .here (hZero s hRank)
  | succ n ih =>
      rcases hSucc n s hRank with hGoal | hDrop
      · exact .here hGoal
      · apply LeadsTo.of_step
        intro a hOwn
        rcases hDrop a hOwn with ⟨t, hStep, hRest⟩
        exact ⟨t, hStep, ih hRest⟩

end Machine

------------------------------------------------------------
-- Amortized Work
------------------------------------------------------------

namespace Machine

variable {σ α : Type}
variable {m : Machine σ α}
variable {cost gain : α → Nat}
variable {I : Nat → σ → Prop}

/-
  `I n s` says that the state has the potential `n`. A step
  is paid for by the potential and by what the step gains.
-/
def Amortized
    (m : Machine σ α)
    (cost gain : α → Nat)
    (I : Nat → σ → Prop) :
    Prop :=
  ∀ n s a t,
    I n s → m.step s a = some t →
      ∃ k, k + cost a ≤ n + gain a ∧ I k t

/- A run costs what it gains and the potential, at most. -/
theorem exec_amortized
    (hSteps : m.Amortized cost gain I)
    {n : Nat}
    {s t : σ}
    {as : List α}
    (hRun : m.exec s as = some t)
    (hStart : I n s) :
    ∃ k,
      k + (as.map cost).sum ≤ n + (as.map gain).sum ∧
        I k t := by
  induction as generalizing n s with
  | nil =>
      have hEq : s = t := by simpa using hRun
      exact ⟨n, Nat.le_refl _, hEq ▸ hStart⟩
  | cons a as ih =>
      rcases exec_cons.mp hRun with ⟨u, hStep, hRest⟩
      rcases hSteps n s a u hStart hStep with
        ⟨k, hFirst, hNext⟩
      rcases ih hRest hNext with ⟨l, hLater, hLast⟩
      refine ⟨l, ?_, hLast⟩
      simp only [List.map_cons, List.sum_cons]
      omega

/-
  If there is a step that costs and gains nothing until
  `Goal`, then at most `n` of these steps get there.
-/
theorem exists_run_of_amortized
    {Own : α → Prop}
    {Goal : σ → Prop}
    (hSteps : m.Amortized cost gain I)
    (hOwn : ∀ a, Own a → 0 < cost a ∧ gain a = 0)
    (hEnabled :
      ∀ n s,
        I n s →
          Goal s ∨ ∃ a t, Own a ∧ m.step s a = some t)
    {n : Nat}
    {s : σ}
    (hStart : I n s) :
    ∃ as t,
      (∀ a ∈ as, Own a) ∧
        as.length ≤ n ∧
          m.exec s as = some t ∧ Goal t := by
  induction n using Nat.strongRecOn generalizing s with
  | ind n ih =>
      rcases hEnabled n s hStart with
        hGoal | ⟨a, t, hAct, hStep⟩
      · exact ⟨[], s, by simp, Nat.zero_le n, rfl, hGoal⟩
      · rcases hOwn a hAct with ⟨hCost, hGain⟩
        rcases hSteps n s a t hStart hStep with
          ⟨k, hFirst, hNext⟩
        rcases ih k (by omega) hNext with
          ⟨as, u, hOnly, hLen, hRest, hGoal⟩
        refine
          ⟨a :: as, u, ?_, ?_,
            exec_cons.mpr ⟨t, hStep, hRest⟩, hGoal⟩
        · intro b hMem
          rcases List.mem_cons.mp hMem with rfl | hLater
          · exact hAct
          · exact hOnly b hLater
        · simp only [List.length_cons]
          omega

end Machine

------------------------------------------------------------
-- Simulation
------------------------------------------------------------

namespace Machine

variable {σ τ α β : Type}
variable {m : Machine σ α}
variable {n : Machine τ β}

/- Some run leads from the one state to the other. -/
def Reaches
    (m : Machine σ α)
    (s s' : σ) :
    Prop :=
  ∃ as, m.exec s as = some s'

theorem Reaches.refl
    (s : σ) :
    m.Reaches s s :=
  ⟨[], rfl⟩

theorem Reaches.trans
    {s t u : σ}
    (hFirst : m.Reaches s t)
    (hLast : m.Reaches t u) :
    m.Reaches s u := by
  rcases hFirst with ⟨as, hAs⟩
  rcases hLast with ⟨bs, hBs⟩
  exact ⟨as ++ bs, exec_append.mpr ⟨t, hAs, hBs⟩⟩

/- A step, and then a run. -/
theorem Reaches.step
    {s t u : σ}
    (a : α)
    (hStep : m.step s a = some t)
    (hRest : m.Reaches t u) :
    m.Reaches s u := by
  rcases hRest with ⟨as, hAs⟩
  exact ⟨a :: as, exec_cons.mpr ⟨t, hStep, hAs⟩⟩

end Machine
