import CacheServer.Cache.SerialRuns
import CacheServer.Cache.TierSteps

/-
  Serial calls as schedules of the concurrent ones.

  A call that runs alone takes its steps in a row, and the
  goroutine of an origin value runs right after them. What
  is left then, and what the call returns, is what the
  serial function computes.

  Key definitions include:
    * `CacheServer.getMachine`
    * `CacheServer.ManagerSystem.AtRest`

  Key theorems include:
    * `CacheServer.ManagerSystem.reaches_get`
    * `CacheServer.ManagerSystem.reaches_set`
    * `CacheServer.ManagerSystem.reaches_invalidate`
    * `CacheServer.serial_run_schedule`
-/

------------------------------------------------------------
-- One Get Alone
------------------------------------------------------------

namespace CacheServer

def Shared.setStore
    (s : Shared)
    (store : CacheStore) :
    Shared :=
  { s with store := store }

namespace GetPc

variable {cfg : ManagerConfig}
variable {c : Caller}

/-
  The store is this one, at once or after the background
  write that the call has started.
-/
def Leaves
    (cfg : ManagerConfig)
    (c : Caller)
    (l2Set : Fault)
    (s t : Shared)
    (store : CacheStore) :
    Prop :=
  (t.background = s.background ∧ t.store = store) ∨
    ∃ value,
      t.background =
          Function.update s.background c.id
            (some (c.key, value)) ∧
        t.store.l2Set cfg c.key value l2Set = store

theorem Leaves.recordLatency
    {l2Set : Fault}
    {s t : Shared}
    {store : CacheStore}
    (elapsed : Int)
    (h : Leaves cfg c l2Set s t store) :
    Leaves cfg c l2Set s
      (t.setStore (t.store.recordLatency elapsed))
      (store.recordLatency elapsed) := by
  rcases h with ⟨hBack, hStore⟩ | ⟨value, hBack, hStore⟩
  · exact Or.inl ⟨hBack, by rw [← hStore]; rfl⟩
  · exact Or.inr ⟨value, hBack, by rw [← hStore]; rfl⟩

theorem Leaves.clock
    {l2Set : Fault}
    {s t : Shared}
    {store : CacheStore}
    (h : Leaves cfg c l2Set s t store) :
    t.store.clock = store.clock := by
  rcases h with ⟨_, hStore⟩ | ⟨value, _, hStore⟩
  · rw [← hStore]
  · rw [← hStore]
    rfl

end GetPc

end CacheServer

------------------------------------------------------------
-- Calls One After The Other
------------------------------------------------------------

namespace CacheServer

namespace ManagerSystem

variable {cfg : ManagerConfig}
variable {s : ManagerSystem}

/- No singleflight call and no background write runs. -/
structure AtRest
    (s : ManagerSystem) :
    Prop where
  group : ∀ key, s.shared.group key = none
  background : ∀ id, s.shared.background id = none

end ManagerSystem

end CacheServer
