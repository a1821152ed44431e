import CacheServer.Cache.L1
import CacheServer.Lib.Machine

/-
  Interleavings of the critical sections of the L1 cache.

  Any number of `Get`, `Set`, `Delete` and `Stats` calls run
  at once. A `Get` reads its entry in one section, consults
  the clock outside the lock, and deletes an expired entry
  in a second section; `Stats` reads one shard a section.

  Key definitions include:
    * `CacheServer.L1System`
    * `CacheServer.L1Action`
    * `CacheServer.l1Machine`

  Key theorems include:
    * `CacheServer.L1System.step_shard`
    * `CacheServer.L1System.exec_shards`
-/

------------------------------------------------------------
-- Calls In Progress
------------------------------------------------------------

namespace CacheServer

/- Where a call of `L1Cache.Get` stands after its read. -/
inductive L1GetState
| check (key : Key) (entry : L1Entry)
| lazyDelete (key : Key) (entry : L1Entry)
| done (key : Key) (result : Option Value)
deriving DecidableEq

/-
  The loop variables of a call of `L1Cache.Stats`. The call
  returns `total` once `next` has reached `numShards`.
-/
structure L1StatsState where
  next : Nat
  total : Nat
deriving DecidableEq

/- The cache, the clock and the calls in progress. -/
structure L1System where
  cache : L1Cache
  clock : Int
  gets : Nat → Option L1GetState
  stats : Nat → Option L1StatsState

/-
  One critical section, one look at the clock outside the
  lock, or the passing of time. The clock never goes back.
-/
inductive L1Action
| getRead (call : Nat) (key : Key)
| getCheck (call : Nat)
| getLazyDelete (call : Nat)
| set (key : Key) (value : Value)
| delete (key : Key)
| statsCall (call : Nat)
| statsRead (call : Nat)
| tick (elapsed : Nat)
deriving DecidableEq

end CacheServer

------------------------------------------------------------
-- Steps
------------------------------------------------------------

namespace CacheServer

namespace L1System

/- A cache just made by `NewL1`, with no call in progress. -/
def new
    (maxSize : Int)
    (ttl : Int)
    (clock : Int) :
    L1System :=
  { cache := newL1 maxSize ttl
    clock := clock
    gets := fun _ => none
    stats := fun _ => none }

/- Record where a `Get` call stands. -/
def putGet
    (s : L1System)
    (call : Nat)
    (state : L1GetState) :
    L1System :=
  { s with gets := Function.update s.gets call (some state) }

/- Record where a `Stats` call stands. -/
def putStats
    (s : L1System)
    (call : Nat)
    (state : L1StatsState) :
    L1System :=
  { s with
    stats := Function.update s.stats call (some state) }

/- The first section of `Get`. -/
def getRead
    (s : L1System)
    (call : Nat)
    (key : Key) :
    Option L1System :=
  match s.gets call with
  | some _ => none
  | none =>
      match s.cache.read key with
      | none => some (s.putGet call (.done key none))
      | some entry => some (s.putGet call (.check key entry))

/- `time.Now().After(entry.expiresAt)`, outside the lock. -/
def getCheck
    (s : L1System)
    (call : Nat) :
    Option L1System :=
  match s.gets call with
  | some (.check key entry) =>
      if entry.expired s.clock then
        some (s.putGet call (.lazyDelete key entry))
      else
        some (s.putGet call (.done key (some entry.value)))
  | _ => none

/- The second section of `Get`. -/
def getLazyDelete
    (s : L1System)
    (call : Nat) :
    Option L1System :=
  match s.gets call with
  | some (.lazyDelete key _) =>
      some
        { s.putGet call (.done key none) with
          cache := s.cache.lazyDelete key }
  | _ => none

/- One turn of the loop of `Stats`. -/
def statsRead
    (s : L1System)
    (call : Nat) :
    Option L1System :=
  match s.stats call with
  | none => none
  | some state =>
      if h : state.next < numShards then
        some
          (s.putStats call
            { next := state.next + 1
              total :=
                state.total +
                  (s.cache.shards ⟨state.next, h⟩).items.len })
      else
        none

def step
    (s : L1System) :
    L1Action → Option L1System
| .getRead call key => s.getRead call key
| .getCheck call => s.getCheck call
| .getLazyDelete call => s.getLazyDelete call
| .set key value =>
    some { s with cache := s.cache.set s.clock key value }
| .delete key =>
    some { s with cache := s.cache.delete key }
| .statsCall call =>
    match s.stats call with
    | some _ => none
    | none => some (s.putStats call { next := 0, total := 0 })
| .statsRead call => s.statsRead call
| .tick elapsed =>
    some { s with clock := s.clock + elapsed }

end L1System

/- Interleavings of L1 calls are the runs of this machine. -/
def l1Machine : Machine L1System L1Action :=
  { step := L1System.step }

end CacheServer

------------------------------------------------------------
-- What One Step Does
------------------------------------------------------------

namespace CacheServer

namespace L1System

/- Reading changes the record of the call only. -/
theorem getRead_eq
    {s s' : L1System}
    {call : Nat}
    {key : Key}
    (h : s.getRead call key = some s') :
    s.gets call = none ∧
      ((s.cache.read key = none ∧
          s' = s.putGet call (.done key none)) ∨
        ∃ entry,
          s.cache.read key = some entry ∧
            s' = s.putGet call (.check key entry)) := by
  unfold getRead at h
  cases hCall : s.gets call with
  | some state =>
      simp [hCall] at h
  | none =>
      cases hRead : s.cache.read key with
      | none =>
          simp only [hCall, hRead, Option.some.injEq] at h
          exact ⟨rfl, Or.inl ⟨rfl, h.symm⟩⟩
      | some entry =>
          simp only [hCall, hRead, Option.some.injEq] at h
          exact ⟨rfl, Or.inr ⟨entry, rfl, h.symm⟩⟩

/- The expiry test sends a `Get` to its delete or its return. -/
theorem getCheck_eq
    {s s' : L1System}
    {call : Nat}
    (h : s.getCheck call = some s') :
    ∃ key entry,
      s.gets call = some (.check key entry) ∧
        ((entry.expired s.clock = true ∧
            s' = s.putGet call (.lazyDelete key entry)) ∨
          (entry.expired s.clock = false ∧
            s' =
              s.putGet call
                (.done key (some entry.value)))) := by
  unfold getCheck at h
  cases hCall : s.gets call with
  | none =>
      simp [hCall] at h
  | some state =>
      cases state with
      | check key entry =>
          refine ⟨key, entry, rfl, ?_⟩
          cases hExp : entry.expired s.clock with
          | true =>
              simp only [hCall, hExp, if_true,
                Option.some.injEq] at h
              exact Or.inl ⟨rfl, h.symm⟩
          | false =>
              simp only [hCall, hExp, Bool.false_eq_true,
                if_false, Option.some.injEq] at h
              exact Or.inr ⟨rfl, h.symm⟩
      | lazyDelete key entry =>
          simp [hCall] at h
      | done key result =>
          simp [hCall] at h

/- The second section deletes the key of its `Get`. -/
theorem getLazyDelete_eq
    {s s' : L1System}
    {call : Nat}
    (h : s.getLazyDelete call = some s') :
    ∃ key entry,
      s.gets call = some (.lazyDelete key entry) ∧
        s' =
          { s.putGet call (.done key none) with
            cache := s.cache.lazyDelete key } := by
  unfold getLazyDelete at h
  cases hCall : s.gets call with
  | none =>
      simp [hCall] at h
  | some state =>
      cases state with
      | check key entry =>
          simp [hCall] at h
      | lazyDelete key entry =>
          simp only [hCall, Option.some.injEq] at h
          exact ⟨key, entry, rfl, h.symm⟩
      | done key result =>
          simp [hCall] at h

/- One turn of `Stats` adds the size of the next shard. -/
theorem statsRead_eq
    {s s' : L1System}
    {call : Nat}
    (h : s.statsRead call = some s') :
    ∃ state, ∃ hNext : state.next < numShards,
      s.stats call = some state ∧
        s' =
          s.putStats call
            { next := state.next + 1
              total :=
                state.total +
                  (s.cache.shards
                    ⟨state.next, hNext⟩).items.len } := by
  unfold statsRead at h
  cases hCall : s.stats call with
  | none =>
      simp [hCall] at h
  | some state =>
      by_cases hNext : state.next < numShards
      · simp only [hCall, hNext, dite_true,
          Option.some.injEq] at h
        exact ⟨state, hNext, rfl, h.symm⟩
      · simp [hCall, hNext] at h

/- What one section does to the cache. -/
theorem step_cache
    {s s' : L1System}
    {a : L1Action}
    (h : s.step a = some s') :
    s'.cache = s.cache ∨
      (∃ key value, a = .set key value ∧
        s'.cache = s.cache.set s.clock key value) ∨
      (∃ key, a = .delete key ∧
        s'.cache = s.cache.delete key) ∨
      (∃ call key entry, a = .getLazyDelete call ∧
        s.gets call = some (.lazyDelete key entry) ∧
          s'.cache = s.cache.lazyDelete key) := by
  cases a with
  | getRead call key =>
      apply Or.inl
      rcases (getRead_eq h).2 with ⟨_, rfl⟩ | ⟨_, _, rfl⟩
      · rfl
      · rfl
  | getCheck call =>
      apply Or.inl
      rcases getCheck_eq h with
        ⟨_, _, _, ⟨_, rfl⟩ | ⟨_, rfl⟩⟩
      · rfl
      · rfl
  | getLazyDelete call =>
      rcases getLazyDelete_eq h with
        ⟨key, entry, hCall, rfl⟩
      exact
        Or.inr (Or.inr (Or.inr
          ⟨call, key, entry, rfl, hCall, rfl⟩))
  | set key value =>
      simp only [step, Option.some.injEq] at h
      subst h
      exact Or.inr (Or.inl ⟨key, value, rfl, rfl⟩)
  | delete key =>
      simp only [step, Option.some.injEq] at h
      subst h
      exact Or.inr (Or.inr (Or.inl ⟨key, rfl, rfl⟩))
  | statsCall call =>
      apply Or.inl
      simp only [step] at h
      cases hCall : s.stats call with
      | some state =>
          simp [hCall] at h
      | none =>
          simp only [hCall, Option.some.injEq] at h
          subst h
          rfl
  | statsRead call =>
      apply Or.inl
      rcases statsRead_eq h with ⟨_, _, _, rfl⟩
      rfl
  | tick elapsed =>
      apply Or.inl
      simp only [step, Option.some.injEq] at h
      subst h
      rfl

/- A shard after a change of one key's shard. -/
theorem shards_modifyShard
    (c : L1Cache)
    (key : Key)
    (f : L1Shard → L1Shard)
    (i : Fin numShards) :
    (c.modifyShard key f).shards i = c.shards i ∨
      (c.modifyShard key f).shards i = f (c.shards i) := by
  by_cases hEq : i = shardIdx key
  · subst hEq
    apply Or.inr
    simp [L1Cache.modifyShard, L1Cache.getShard]
  · apply Or.inl
    simp [L1Cache.modifyShard, hEq]

/- A shard changes by a `set` or a `delete` of some key. -/
theorem step_shard
    {s s' : L1System}
    {a : L1Action}
    (h : s.step a = some s')
    (i : Fin numShards) :
    s'.cache.shards i = s.cache.shards i ∨
      (∃ key entry,
        s'.cache.shards i =
          (s.cache.shards i).set key entry) ∨
      (∃ key,
        s'.cache.shards i =
          (s.cache.shards i).delete key) := by
  rcases step_cache h with hSame | hSet | hDelete | hLazy
  · rw [hSame]
    exact Or.inl rfl
  · rcases hSet with ⟨key, value, _, hCache⟩
    rw [hCache]
    rcases shards_modifyShard s.cache key _ i with hI | hI
    · exact Or.inl hI
    · exact Or.inr (Or.inl ⟨key, _, hI⟩)
  · rcases hDelete with ⟨key, _, hCache⟩
    rw [hCache]
    rcases shards_modifyShard s.cache key _ i with hI | hI
    · exact Or.inl hI
    · exact Or.inr (Or.inr ⟨key, hI⟩)
  · rcases hLazy with ⟨_, key, _, _, _, hCache⟩
    rw [hCache]
    rcases shards_modifyShard s.cache key _ i with hI | hI
    · exact Or.inl hI
    · exact Or.inr (Or.inr ⟨key, hI⟩)

/- What `set` and `delete` keep of a shard a section keeps. -/
theorem step_shards
    {P : L1Shard → Prop}
    (hSet :
      ∀ shard key entry, P shard → P (shard.set key entry))
    (hDelete :
      ∀ shard key, P shard → P (shard.delete key))
    {s s' : L1System}
    {a : L1Action}
    (hStep : s.step a = some s')
    (hP : ∀ i, P (s.cache.shards i)) :
    ∀ i, P (s'.cache.shards i) := by
  intro i
  rcases step_shard hStep i with h | ⟨key, entry, h⟩ | ⟨key, h⟩
  · rw [h]
    exact hP i
  · rw [h]
    exact hSet _ key entry (hP i)
  · rw [h]
    exact hDelete _ key (hP i)

/-
  What `set` and `delete` keep of a shard holds of every
  shard after every run.
-/
theorem exec_shards
    {P : L1Shard → Prop}
    (hSet :
      ∀ shard key entry, P shard → P (shard.set key entry))
    (hDelete :
      ∀ shard key, P shard → P (shard.delete key))
    {s s' : L1System}
    {actions : List L1Action}
    (hRun : l1Machine.exec s actions = some s')
    (hInit : ∀ i, P (s.cache.shards i)) :
    ∀ i, P (s'.cache.shards i) := by
  refine
    Machine.exec_invariant
      (I := fun t => ∀ i, P (t.cache.shards i))
      ?_ hRun hInit
  intro t a t' hP hStep
  exact step_shards hSet hDelete hStep hP

end L1System

end CacheServer
