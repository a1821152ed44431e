import Mathlib.Data.List.Basic

/-
  Searching a list once around from a start index.

  `CyclicScan.find p xs start` looks at the slots `start`,
  `start + 1`, ... modulo the length of `xs`, each at most
  once, and returns the first slot whose element satisfies
  `p`, with the element.

  Key definitions include:
    * `CyclicScan.find`
    * `CyclicScan.visits`

  Key theorems include:
    * `CyclicScan.find_sound`
    * `CyclicScan.find_complete`
    * `CyclicScan.find_of_drop`
    * `CyclicScan.visits_of_drop`
-/

------------------------------------------------------------
-- Cyclic Search
------------------------------------------------------------

namespace CyclicScan

variable {α : Type}

/-
  Look at `n` more slots of `xs`, the next one being the
  `i`th after `start`.
-/
def findFrom
    (p : α → Bool)
    (xs : List α)
    (start : Nat) :
    Nat → Nat → Option (Nat × α)
| _, 0 => none
| i, n + 1 =>
    let idx := (start + i) % xs.length
    match xs[idx]? with
    | none => none
    | some x =>
        if p x then
          some (idx, x)
        else
          findFrom p xs start (i + 1) n

/- One round over the slots of `xs` from `start`. -/
def find
    (p : α → Bool)
    (xs : List α)
    (start : Nat) :
    Option (Nat × α) :=
  findFrom p xs start 0 xs.length

/- The slots that `findFrom` looks at, in order. -/
def visitFrom
    (p : α → Bool)
    (xs : List α)
    (start : Nat) :
    Nat → Nat → List Nat
| _, 0 => []
| i, n + 1 =>
    let idx := (start + i) % xs.length
    match xs[idx]? with
    | none => []
    | some x =>
        if p x then
          [idx]
        else
          idx :: visitFrom p xs start (i + 1) n

/- The slots of the round that `find` looks at. -/
def visits
    (p : α → Bool)
    (xs : List α)
    (start : Nat) :
    List Nat :=
  visitFrom p xs start 0 xs.length

theorem findFrom_sound
    {p : α → Bool}
    {xs : List α}
    {start i n idx : Nat}
    {x : α}
    (h : findFrom p xs start i n = some (idx, x)) :
    xs[idx]? = some x ∧ p x = true := by
  induction n generalizing i with
  | zero =>
      simp [findFrom] at h
  | succ n ih =>
      unfold findFrom at h
      cases hSlot : xs[(start + i) % xs.length]? with
      | none =>
          simp [hSlot] at h
      | some y =>
          by_cases hp : p y = true
          · simp only [hSlot, hp, if_true, Option.some.injEq,
              Prod.mk.injEq] at h
            rcases h with ⟨rfl, rfl⟩
            exact ⟨hSlot, hp⟩
          · simp only [hSlot, hp] at h
            exact ih h

/- The slot found holds the element found, which satisfies `p`. -/
theorem find_sound
    {p : α → Bool}
    {xs : List α}
    {start idx : Nat}
    {x : α}
    (h : find p xs start = some (idx, x)) :
    xs[idx]? = some x ∧ p x = true :=
  findFrom_sound h

/- A search that finds nothing has seen only misses. -/
theorem findFrom_eq_none
    {p : α → Bool}
    {xs : List α}
    {start i n : Nat}
    (hNone : findFrom p xs start i n = none)
    (hNonempty : xs ≠ [])
    {j : Nat}
    (hLe : i ≤ j)
    (hLt : j < i + n)
    {x : α}
    (hSlot : xs[(start + j) % xs.length]? = some x) :
    p x = false := by
  induction n generalizing i with
  | zero =>
      omega
  | succ n ih =>
      have hPos : 0 < xs.length :=
        List.length_pos_of_ne_nil hNonempty
      have hIdx : (start + i) % xs.length < xs.length :=
        Nat.mod_lt _ hPos
      have hGet := List.getElem?_eq_getElem hIdx
      unfold findFrom at hNone
      simp only [hGet] at hNone
      by_cases hp : p xs[(start + i) % xs.length] = true
      · rw [if_pos hp] at hNone
        cases hNone
      · rw [if_neg hp] at hNone
        by_cases hEq : j = i
        · subst hEq
          rw [hGet] at hSlot
          cases hSlot
          simpa using hp
        · exact ih hNone (by omega) (by omega)

/- Every slot lies less than one round after the start. -/
theorem exists_offset
    {n idx : Nat}
    (start : Nat)
    (hIdx : idx < n) :
    ∃ j, j < n ∧ (start + j) % n = idx := by
  have hStart : start % n < n := Nat.mod_lt _ (by omega)
  by_cases hLe : start % n ≤ idx
  · refine ⟨idx - start % n, by omega, ?_⟩
    have hSum : start % n + (idx - start % n) = idx := by
      omega
    rw [← Nat.mod_add_mod, hSum]
    exact Nat.mod_eq_of_lt hIdx
  · refine ⟨n - (start % n - idx), by omega, ?_⟩
    have hSum :
        start % n + (n - (start % n - idx)) = n + idx := by
      omega
    rw [← Nat.mod_add_mod, hSum, Nat.add_mod_left]
    exact Nat.mod_eq_of_lt hIdx

/- One round finds a satisfying element if there is one. -/
theorem find_complete
    {p : α → Bool}
    {xs : List α}
    (start : Nat)
    {x : α}
    (hMem : x ∈ xs)
    (hp : p x = true) :
    ∃ idx y, find p xs start = some (idx, y) := by
  cases hFind : find p xs start with
  | some r => exact ⟨r.1, r.2, rfl⟩
  | none =>
      rcases List.mem_iff_getElem?.mp hMem with ⟨idx, hIdx⟩
      have hLt : idx < xs.length := by
        rcases List.getElem?_eq_some_iff.mp hIdx with ⟨h, _⟩
        exact h
      rcases exists_offset start hLt with ⟨j, hj, hMod⟩
      have hFalse : p x = false :=
        findFrom_eq_none hFind (List.ne_nil_of_mem hMem)
          (Nat.zero_le j) (by omega) (by rw [hMod]; exact hIdx)
      rw [hp] at hFalse
      cases hFalse

/- A slot that lies ahead is met without turning over. -/
theorem slot_of_drop
    {xs rest : List α}
    {k : Nat}
    {x : α}
    (hDrop : xs.drop k = x :: rest) :
    k % xs.length = k ∧ xs[k]? = some x ∧
      xs.drop (k + 1) = rest := by
  have hSlot := congrArg List.head? hDrop
  rw [List.head?_drop, List.head?_cons] at hSlot
  rcases List.getElem?_eq_some_iff.mp hSlot with ⟨hLt, _⟩
  have hTail := congrArg List.tail hDrop
  rw [List.tail_drop, List.tail_cons] at hTail
  exact ⟨Nat.mod_eq_of_lt hLt, hSlot, hTail⟩

/- A hit after the start is met before the search turns over. -/
theorem findFrom_of_drop
    {p : α → Bool}
    {xs pre post : List α}
    {start i n : Nat}
    {x : α}
    (hDrop : xs.drop (start + i) = pre ++ x :: post)
    (hMiss : ∀ y ∈ pre, p y = false)
    (hHit : p x = true)
    (hRounds : pre.length < n) :
    findFrom p xs start i n =
      some (start + i + pre.length, x) := by
  induction pre generalizing i n with
  | nil =>
      cases n with
      | zero => cases hRounds
      | succ n =>
          rcases slot_of_drop hDrop with ⟨hMod, hSlot, _⟩
          simp only [findFrom]
          rw [hMod]
          simp [hSlot, hHit]
  | cons y pre ih =>
      cases n with
      | zero => cases hRounds
      | succ n =>
          rcases slot_of_drop hDrop with
            ⟨hMod, hSlot, hTail⟩
          have hY : p y = false :=
            hMiss y List.mem_cons_self
          have hShort : pre.length < n :=
            Nat.lt_of_succ_lt_succ hRounds
          have hRest :=
            ih (i := i + 1) hTail
              (fun z hZ => hMiss z (List.mem_cons_of_mem y hZ))
              hShort
          simp only [findFrom]
          rw [hMod]
          simp only [hSlot, hY, Bool.false_eq_true, if_false]
          rw [hRest, List.length_cons]
          congr 2
          omega

/- The slots up to that hit are what the search looks at. -/
theorem visitFrom_of_drop
    {p : α → Bool}
    {xs pre post : List α}
    {start i n : Nat}
    {x : α}
    (hDrop : xs.drop (start + i) = pre ++ x :: post)
    (hMiss : ∀ y ∈ pre, p y = false)
    (hHit : p x = true)
    (hRounds : pre.length < n) :
    visitFrom p xs start i n =
      List.range' (start + i) (pre.length + 1) := by
  induction pre generalizing i n with
  | nil =>
      cases n with
      | zero => cases hRounds
      | succ n =>
          rcases slot_of_drop hDrop with ⟨hMod, hSlot, _⟩
          simp only [visitFrom]
          rw [hMod]
          simp [hSlot, hHit]
  | cons y pre ih =>
      cases n with
      | zero => cases hRounds
      | succ n =>
          rcases slot_of_drop hDrop with
            ⟨hMod, hSlot, hTail⟩
          have hY : p y = false :=
            hMiss y List.mem_cons_self
          have hShort : pre.length < n :=
            Nat.lt_of_succ_lt_succ hRounds
          have hRest :=
            ih (i := i + 1) hTail
              (fun z hZ => hMiss z (List.mem_cons_of_mem y hZ))
              hShort
          simp only [visitFrom]
          rw [hMod]
          simp only [hSlot, hY, Bool.false_eq_true, if_false]
          rw [hRest, List.length_cons, List.range'_succ]
          rfl

/- There are rounds enough for what lies ahead. -/
theorem length_lt_of_drop
    {xs pre post : List α}
    {start : Nat}
    {x : α}
    (hDrop : xs.drop start = pre ++ x :: post) :
    pre.length < xs.length := by
  have hLen := congrArg List.length hDrop
  rw [List.length_drop, List.length_append, List.length_cons]
    at hLen
  omega

/- The first hit after the start is found where it lies. -/
theorem find_of_drop
    {p : α → Bool}
    {xs pre post : List α}
    {start : Nat}
    {x : α}
    (hDrop : xs.drop start = pre ++ x :: post)
    (hMiss : ∀ y ∈ pre, p y = false)
    (hHit : p x = true) :
    find p xs start = some (start + pre.length, x) :=
  findFrom_of_drop hDrop hMiss hHit (length_lt_of_drop hDrop)

/- Nothing before the start, and nothing after the hit. -/
theorem visits_of_drop
    {p : α → Bool}
    {xs pre post : List α}
    {start : Nat}
    {x : α}
    (hDrop : xs.drop start = pre ++ x :: post)
    (hMiss : ∀ y ∈ pre, p y = false)
    (hHit : p x = true) :
    visits p xs start = List.range' start (pre.length + 1) :=
  visitFrom_of_drop hDrop hMiss hHit (length_lt_of_drop hDrop)

end CyclicScan
