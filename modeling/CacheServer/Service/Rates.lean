import CacheServer.Service.Calls
import CacheServer.Cache.Counters
import Mathlib.Data.Finset.Card
import Mathlib.Algebra.Order.Field.Basic
import Mathlib.Algebra.Order.Field.Rat

/-
  The rates of a snapshot that is taken among lookups.

  `Snapshot` loads the counters one by one. A lookup that
  has counted its hit records its request at the end only,
  so a snapshot may see the hits of lookups whose requests
  it does not see.

  Key definitions include:
    * `CacheServer.SnapshotSystem`
    * `CacheServer.CountLog`
    * `CacheServer.Snapshot.RatesOk`
    * `CacheServer.SnapshotSystem.RequestsIn`

  Key theorems include:
    * `CacheServer.GetPc.next_counts`
    * `CacheServer.ManagerSystem.tallied_step`
    * `CacheServer.snapshot_ensures`
    * `CacheServer.reported_rates_are_rates`
-/

------------------------------------------------------------
-- A Snapshot Among Lookups
------------------------------------------------------------

namespace CacheServer

/- The manager, and what is left of a `Snapshot`. -/
structure SnapshotSystem where
  manager : ManagerSystem
  left : ServiceProgram Snapshot

/- The manager takes a step, or one counter is loaded. -/
inductive SnapshotAction
| manager (action : ManagerAction)
| load

namespace SnapshotSystem

/- A manager just started, with a snapshot to be taken. -/
def new
    (maxSize : Int)
    (l1TTL : Int)
    (redis : Redis)
    (clock : Int) :
    SnapshotSystem :=
  { manager := ManagerSystem.new maxSize l1TTL redis clock
    left := snapshot }

def step
    (cfg : ManagerConfig)
    (s : SnapshotSystem) :
    SnapshotAction → Option SnapshotSystem
| .manager action =>
    (s.manager.step cfg action).map
      (fun manager => { s with manager := manager })
| .load =>
    match s.left with
    | .call (.load counter) rest =>
        some
          { s with
            left := rest (s.manager.metrics.load counter) }
    | _ => none

end SnapshotSystem

/- The places from which a step counts a hit or a request. -/
def GetPc.counts :
    GetPc → Option Counter
| .countL1Hit _ => some .l1Hits
| .countL2Hit _ => some .l2Hits
| .countRequest _ => some .totalRequests
| _ => none

def Proc.counts :
    Proc → Option Counter
| .get _ _ pc => pc.counts
| _ => none

/-
  The `Get`s that have counted a hit or a request so far, and
  those of them that the last load of the counter has seen.
-/
structure CountLog where
  counted : Counter → Finset Nat
  seen : Counter → Finset Nat

namespace CountLog

def empty : CountLog :=
  { counted := fun _ => ∅
    seen := fun _ => ∅ }

def add
    (counted : Counter → Finset Nat)
    (id : Nat) :
    Option Counter → Counter → Finset Nat
| none => counted
| some counter =>
    Function.update counted counter
      (insert id (counted counter))

end CountLog

/- Who has counted, after a step of the manager. -/
def ManagerSystem.record
    (s : ManagerSystem)
    (counted : Counter → Finset Nat) :
    ManagerAction → Counter → Finset Nat
| .run id _ _ =>
    CountLog.add counted id ((s.procs id).bind Proc.counts)
| _ => counted

def SnapshotSystem.record
    (s : SnapshotSystem)
    (a : SnapshotAction)
    (log : CountLog) :
    CountLog :=
  match a with
  | .manager action =>
      { log with
        counted := s.manager.record log.counted action }
  | .load =>
      match s.left with
      | .call (.load counter) _ =>
          { log with
            seen :=
              Function.update log.seen counter
                (log.counted counter) }
      | _ => log

/- A snapshot among lookups, with the log of the counts. -/
def snapshotMachine
    (cfg : ManagerConfig) :
    Machine (SnapshotSystem × CountLog) SnapshotAction :=
  Machine.withHistory
    { step := SnapshotSystem.step cfg }
    SnapshotSystem.record

/- All rates lie between nothing and everything. -/
def Snapshot.RatesOk
    (r : Snapshot) :
    Prop :=
  (0 ≤ r.l1HitRate ∧ r.l1HitRate ≤ 1) ∧
    (0 ≤ r.l2HitRate ∧ r.l2HitRate ≤ 1) ∧
      0 ≤ r.overallHitRate ∧ r.overallHitRate ≤ 1

/- The lookups whose hit the snapshot has seen. -/
def CountLog.hits
    (log : CountLog) :
    Finset Nat :=
  log.seen .l1Hits ∪ log.seen .l2Hits

/- The action loads `TotalRequests` next. -/
def SnapshotSystem.loadsRequests
    (s : SnapshotSystem) :
    SnapshotAction → Bool
| .manager _ => false
| .load =>
    match s.left with
    | .call (.load .totalRequests) _ => true
    | _ => false

/-
  When `TotalRequests` is loaded, the lookups whose hit was
  there to be loaded before have recorded their requests,
  which is the last thing that they do.
-/
def SnapshotSystem.RequestsIn
    (s : SnapshotSystem × CountLog)
    (a : SnapshotAction) :
    Prop :=
  s.1.loadsRequests a = true →
    ∀ id ∈ s.2.hits,
      (s.1.manager.procs id).any Proc.finished = true

instance
    (s : SnapshotSystem × CountLog)
    (a : SnapshotAction) :
    Decidable (SnapshotSystem.RequestsIn s a) :=
  inferInstanceAs (Decidable (_ → _))

end CacheServer

------------------------------------------------------------
-- Who Has Counted
------------------------------------------------------------

namespace CacheServer

/- The counters that rates are made of, but for misses. -/
def Counter.Logged
    (counter : Counter) :
    Prop :=
  counter = .l1Hits ∨ counter = .l2Hits ∨
    counter = .totalRequests

namespace GetPc

/- Where a `Get` may stand once it has counted here. -/
def past
    (counter : Counter) :
    GetPc → Bool
| .backPopulate _ => counter = .l2Hits
| .addLatency _ => counter ≠ .totalRequests
| .countRequest _ => counter ≠ .totalRequests
| .done _ => true
| _ => false

variable {cfg : ManagerConfig}
variable {s : Shared}
variable {c : Caller}
variable {fault : Fault}
variable {origin : OriginReply}
variable {pc pc' : GetPc}

/- A `Get` that has counted does not return to before it. -/
theorem next_past
    {counter : Counter}
    (h : Next cfg s c fault origin pc pc')
    (hPast : pc.past counter = true) :
    pc'.past counter = true := by
  cases h with
  | backPopulate =>
      have hEq : counter = .l2Hits := by
        simpa [past] using hPast
      subst hEq
      rfl
  | addLatency => exact hPast
  | countRequest => rfl
  | _ => cases hPast

/-
  A step that counts adds one. Only a request is counted by a
  `Get` that may have counted before, and then a hit.
-/
theorem next_counts
    {counter : Counter}
    (elapsed : Int)
    (m : Metrics)
    (h : Next cfg s c fault origin pc pc')
    (hCounts : pc.counts = some counter) :
    (∀ other,
      pc.past other = true →
        counter = .totalRequests ∧ other ≠ counter) ∧
      pc'.past counter = true ∧
      (pc.tally elapsed m).load counter =
        m.load counter + 1 := by
  cases h with
  | countL1Hit =>
      cases hCounts
      exact ⟨(fun _ h => by cases h), rfl, rfl⟩
  | countL2Hit =>
      cases hCounts
      exact ⟨(fun _ h => by cases h), rfl, rfl⟩
  | countRequest =>
      cases hCounts
      refine ⟨?_, rfl, rfl⟩
      intro other hPast
      exact ⟨rfl, by simpa [past] using hPast⟩
  | _ => cases hCounts

/- A `Get` returns by counting its request. -/
theorem counts_of_next_done
    {result : GetResult}
    (h : Next cfg s c fault origin pc (.done result)) :
    pc.counts = some .totalRequests := by
  cases h with
  | countRequest => rfl

/- A step that does not count here leaves the counter. -/
theorem tally_load
    {counter : Counter}
    (elapsed : Int)
    (m : Metrics)
    (hLogged : counter.Logged)
    (hCounts : pc.counts ≠ some counter) :
    (pc.tally elapsed m).load counter = m.load counter := by
  rcases hLogged with rfl | rfl | rfl
  · cases pc with
    | countL1Hit value => exact absurd rfl hCounts
    | _ => rfl
  · cases pc with
    | countL2Hit value => exact absurd rfl hCounts
    | _ => rfl
  · cases pc with
    | countRequest result => exact absurd rfl hCounts
    | _ => rfl

end GetPc

def Proc.past
    (counter : Counter) :
    Proc → Bool
| .get _ _ pc => pc.past counter
| _ => false

/-
  The counters are as large as the sets of those that have
  counted, and none of these will count once more. A `Get`
  that has returned has counted its request.
-/
structure ManagerSystem.Tallied
    (s : ManagerSystem)
    (counted : Counter → Finset Nat) :
    Prop where
  numbered : s.Numbered
  size :
    ∀ counter : Counter,
      counter.Logged →
        s.metrics.load counter = (counted counter).card
  past :
    ∀ counter id,
      id ∈ counted counter →
        ∃ p, s.procs id = some p ∧ p.past counter = true
  apart : Disjoint (counted .l1Hits) (counted .l2Hits)
  returned :
    ∀ id key start result,
      s.procs id = some (.get key start (.done result)) →
        id ∈ counted .totalRequests

namespace CountLog

/- Nobody leaves the log of those that have counted. -/
theorem subset_add
    (counted : Counter → Finset Nat)
    (id : Nat)
    (at? : Option Counter)
    (counter : Counter) :
    counted counter ⊆ add counted id at? counter := by
  cases at? with
  | none => exact Finset.Subset.refl _
  | some other =>
      by_cases hEq : counter = other
      · subst hEq
        simp [add]
      · simp [add, hEq]

end CountLog

namespace ManagerSystem

variable {cfg : ManagerConfig}
variable {s s' : ManagerSystem}
variable {a : ManagerAction}
variable {counted : Counter → Finset Nat}

theorem tallied_new
    (maxSize : Int)
    (l1TTL : Int)
    (redis : Redis)
    (clock : Int) :
    (ManagerSystem.new maxSize l1TTL redis clock).Tallied
      (fun _ => ∅) := by
  refine
    ⟨numbered_new maxSize l1TTL redis clock, ?_, ?_,
      Finset.disjoint_empty_left _, ?_⟩
  · intro counter hLogged
    rcases hLogged with rfl | rfl | rfl
    · rfl
    · rfl
    · rfl
  · intro counter id hMem
    exact absurd hMem (Finset.notMem_empty id)
  · intro id key start result hProc
    cases hProc

/- Others than `Get`s do not count. -/
theorem Tallied.keep
    (hTallied : s.Tallied counted)
    (h : s.step cfg a = some s')
    (hMetrics : s'.metrics = s.metrics)
    (hOther :
      ∀ id fault origin p counter,
        a = .run id fault origin →
          s.procs id = some p → p.past counter = false) :
    s'.Tallied counted := by
  refine
    ⟨numbered_step hTallied.numbered h, ?_, ?_,
      hTallied.apart, ?_⟩
  · rw [hMetrics]
    exact hTallied.size
  · intro counter id hMem
    rcases hTallied.past counter id hMem with ⟨p, hProc, hPast⟩
    rcases step_proc_next hTallied.numbered h hProc with
      hKeep | ⟨fault, origin, _, hRun, _⟩
    · exact ⟨p, hKeep, hPast⟩
    · rw [hOther id fault origin p counter hRun hProc] at hPast
      cases hPast
  · intro id key start result hProc
    rcases step_getProc h hProc with
      hOld | ⟨_, _, _, hPc⟩ |
        ⟨fault, origin, pc, hRun, hOld, hPc⟩
    · exact hTallied.returned id key start result hOld
    · cases hPc
    · have hCounts :=
        GetPc.counts_of_next_done (GetPc.run_next hPc)
      have hNot :=
        hOther id fault origin _ .l1Hits hRun hOld
      cases pc with
      | countRequest found => cases hNot
      | _ => cases hCounts

/- Who has counted is past counting after any `Get` step. -/
theorem Tallied.stands
    {id : Nat}
    {key : Key}
    {start : Int}
    {pc pc' : GetPc}
    (hTallied : s.Tallied counted)
    (hProc : s.procs id = some (.get key start pc))
    (hProcs :
      s'.procs =
        Function.update s.procs id (some (.get key start pc')))
    (hPast :
      ∀ counter,
        pc.past counter = true → pc'.past counter = true)
    {counter : Counter}
    {other : Nat}
    (hMem : other ∈ counted counter) :
    ∃ p,
      s'.procs other = some p ∧ p.past counter = true := by
  rcases hTallied.past counter other hMem with ⟨p, hOld, hP⟩
  rw [hProcs]
  by_cases hEq : other = id
  · subst hEq
    rw [hProc] at hOld
    cases hOld
    exact ⟨_, Function.update_self .., hPast counter hP⟩
  · exact ⟨p, by simp [hEq, hOld], hP⟩

/- Who has returned after any `Get` step had, or does now. -/
theorem Tallied.stays
    {id : Nat}
    {key : Key}
    {start : Int}
    {pc' : GetPc}
    (hTallied : s.Tallied counted)
    (hProcs :
      s'.procs =
        Function.update s.procs id (some (.get key start pc')))
    {other : Nat}
    {k : Key}
    {begun : Int}
    {result : GetResult}
    (hProc :
      s'.procs other = some (.get k begun (.done result))) :
    other ∈ counted .totalRequests ∨
      (other = id ∧ pc' = .done result) := by
  rw [hProcs] at hProc
  by_cases hEq : other = id
  · subst hEq
    rw [Function.update_self] at hProc
    cases hProc
    exact Or.inr ⟨rfl, rfl⟩
  · rw [Function.update_of_ne hEq] at hProc
    exact
      Or.inl (hTallied.returned other k begun result hProc)

/- A step of a `Get` that counts neither hit nor request. -/
theorem Tallied.move
    {id : Nat}
    {key : Key}
    {start elapsed : Int}
    {pc pc' : GetPc}
    (hTallied : s.Tallied counted)
    (hNum : s'.Numbered)
    (hProc : s.procs id = some (.get key start pc))
    (hCounts : pc.counts = none)
    (hMetrics : s'.metrics = pc.tally elapsed s.metrics)
    (hProcs :
      s'.procs =
        Function.update s.procs id (some (.get key start pc')))
    (hPast :
      ∀ counter,
        pc.past counter = true → pc'.past counter = true)
    (hDone :
      ∀ result,
        pc' = .done result →
          pc.counts = some .totalRequests) :
    s'.Tallied counted := by
  refine ⟨hNum, ?_, ?_, hTallied.apart, ?_⟩
  · intro counter hLogged
    rw [hMetrics]
    rw [GetPc.tally_load elapsed s.metrics hLogged
      (by simp [hCounts])]
    exact hTallied.size counter hLogged
  · intro counter other hMem
    exact hTallied.stands hProc hProcs hPast hMem
  · intro other k begun result hEnd
    rcases hTallied.stays hProcs hEnd with hOld | ⟨_, hPc⟩
    · exact hOld
    · rw [hDone result hPc] at hCounts
      cases hCounts

/- A step of a `Get` that counts is one more that has. -/
theorem Tallied.count
    {id : Nat}
    {key : Key}
    {start elapsed : Int}
    {pc pc' : GetPc}
    {counter : Counter}
    (hTallied : s.Tallied counted)
    (hNum : s'.Numbered)
    (hProc : s.procs id = some (.get key start pc))
    (hCounts : pc.counts = some counter)
    (hMetrics : s'.metrics = pc.tally elapsed s.metrics)
    (hProcs :
      s'.procs =
        Function.update s.procs id (some (.get key start pc')))
    (hPast :
      ∀ other,
        pc.past other = true → pc'.past other = true)
    (hNext :
      (∀ other,
        pc.past other = true →
          counter = .totalRequests ∧ other ≠ counter) ∧
        pc'.past counter = true ∧
        (pc.tally elapsed s.metrics).load counter =
          s.metrics.load counter + 1)
    (hDone :
      ∀ result,
        pc' = .done result →
          pc.counts = some .totalRequests) :
    s'.Tallied (CountLog.add counted id (some counter)) := by
  have hBefore :
      ∀ other,
        id ∈ counted other →
          counter = .totalRequests ∧ other ≠ counter := by
    intro other hMem
    rcases hTallied.past other id hMem with ⟨p, hOld, hP⟩
    rw [hProc] at hOld
    cases hOld
    exact hNext.1 other hP
  have hFresh : id ∉ counted counter :=
    fun hMem => (hBefore counter hMem).2 rfl
  refine ⟨hNum, ?_, ?_, ?_, ?_⟩
  · intro other hLogged
    rw [hMetrics]
    by_cases hEq : other = counter
    · subst hEq
      simp only [CountLog.add, Function.update_self]
      rw [Finset.card_insert_of_notMem hFresh, hNext.2.2,
        hTallied.size other hLogged]
      push_cast
      rfl
    · simp only [CountLog.add, Function.update_of_ne hEq]
      have hOther : pc.counts ≠ some other := by
        rw [hCounts]
        exact fun h => hEq (Option.some.inj h).symm
      rw [GetPc.tally_load elapsed s.metrics hLogged hOther]
      exact hTallied.size other hLogged
  · intro other i hMem
    have hCases :
        i ∈ counted other ∨ (i = id ∧ other = counter) := by
      by_cases hEq : other = counter
      · subst hEq
        simp only [CountLog.add, Function.update_self,
          Finset.mem_insert] at hMem
        rcases hMem with hId | hOld
        · exact Or.inr ⟨hId, rfl⟩
        · exact Or.inl hOld
      · simp only [CountLog.add,
          Function.update_of_ne hEq] at hMem
        exact Or.inl hMem
    rcases hCases with hOld | ⟨rfl, rfl⟩
    · exact hTallied.stands hProc hProcs hPast hOld
    · rw [hProcs]
      exact ⟨_, Function.update_self .., hNext.2.1⟩
  · have hApart := hTallied.apart
    have hNot :
        counter = .totalRequests ∨
          ∀ other, id ∉ counted other := by
      by_cases hEq : counter = .totalRequests
      · exact Or.inl hEq
      · exact
          Or.inr fun other hMem => hEq (hBefore other hMem).1
    rcases hNot with rfl | hNot
    · exact hApart
    · by_cases hOne : counter = .l1Hits
      · subst hOne
        simpa [CountLog.add, hNot] using hApart
      · by_cases hTwo : counter = .l2Hits
        · subst hTwo
          simpa [CountLog.add, hNot] using hApart
        · simpa [CountLog.add, Function.update_of_ne,
            Ne.symm hOne, Ne.symm hTwo] using hApart
  · intro other k begun result hEnd
    rcases hTallied.stays hProcs hEnd with
      hOld | ⟨rfl, hPc⟩
    · exact
        CountLog.subset_add counted id (some counter)
          .totalRequests hOld
    · rw [hDone result hPc] at hCounts
      cases hCounts
      simp [CountLog.add]

/- The counters agree with the log after every step. -/
theorem tallied_step
    (hTallied : s.Tallied counted)
    (h : s.step cfg a = some s') :
    s'.Tallied (s.record counted a) := by
  have hNum' := numbered_step hTallied.numbered h
  cases a with
  | call call =>
      exact
        hTallied.keep h (by cases h; rfl)
          (fun _ _ _ _ _ hRun => by cases hRun)
  | run id fault origin =>
      rcases step_run h with ⟨p, t, p', hProc, hRun, hEq⟩
      have hRecord :
          s.record counted (.run id fault origin) =
            CountLog.add counted id p.counts := by
        simp [record, hProc]
      rw [hRecord]
      cases p with
      | get key start pc =>
          rcases Proc.run_get hRun with ⟨pc', rfl, hPc⟩
          subst hEq
          have hNext := GetPc.run_next hPc
          have hMetrics := GetPc.run_tally hPc
          have hPast :
              ∀ counter,
                pc.past counter = true →
                  pc'.past counter = true :=
            fun counter => GetPc.next_past hNext
          have hDone :
              ∀ result,
                pc' = .done result →
                  pc.counts = some .totalRequests := by
            intro result hEq
            subst hEq
            exact GetPc.counts_of_next_done hNext
          cases hCount : pc.counts with
          | none =>
              simp only [Proc.counts, hCount]
              exact
                hTallied.move hNum' hProc hCount hMetrics rfl
                  hPast hDone
          | some counter =>
              simp only [Proc.counts, hCount]
              exact
                hTallied.count hNum' hProc hCount hMetrics rfl
                  hPast (GetPc.next_counts _ _ hNext hCount)
                  hDone
      | set key value pc =>
          rcases Proc.run_set hRun with ⟨pc', rfl, hPc⟩
          refine hTallied.keep h ?_ ?_
          · subst hEq
            exact WritePc.runSet_metrics hPc
          · intro i f o q counter hSame hCall
            cases hSame
            rw [hProc] at hCall
            cases hCall
            rfl
      | invalidate key pc =>
          rcases Proc.run_invalidate hRun with ⟨pc', rfl, hPc⟩
          refine hTallied.keep h ?_ ?_
          · subst hEq
            exact WritePc.runInvalidate_metrics hPc
          · intro i f o q counter hSame hCall
            cases hSame
            rw [hProc] at hCall
            cases hCall
            rfl
  | background id fault =>
      refine
        hTallied.keep h ?_ (fun _ _ _ _ _ hRun => by cases hRun)
      rcases step_background h with ⟨_, _, _, rfl⟩
      rfl
  | cancel id =>
      exact
        hTallied.keep h (by cases h; rfl)
          (fun _ _ _ _ _ hRun => by cases hRun)
  | redisDrop key =>
      exact
        hTallied.keep h (by cases h; rfl)
          (fun _ _ _ _ _ hRun => by cases hRun)
  | tick elapsed =>
      exact
        hTallied.keep h (by cases h; rfl)
          (fun _ _ _ _ _ hRun => by cases hRun)

end ManagerSystem

end CacheServer

------------------------------------------------------------
-- What A Snapshot Returns
------------------------------------------------------------

namespace CacheServer

/- A part of a whole is a rate, if it is not more. -/
theorem rate_nonneg
    {part total : Int}
    (hPart : 0 ≤ part) :
    0 ≤ rate part total := by
  unfold rate
  split
  · rename_i hTotal
    exact
      div_nonneg (Int.cast_nonneg hPart)
        (Int.cast_nonneg hTotal.le)
  · exact le_refl 0

theorem rate_le_one_iff
    {part total : Int} :
    rate part total ≤ 1 ↔ total ≤ 0 ∨ part ≤ total := by
  unfold rate
  split
  · rename_i hTotal
    have hPos : (0 : ℚ) < total := Int.cast_pos.mpr hTotal
    rw [div_le_one hPos, Int.cast_le]
    omega
  · rename_i hTotal
    exact iff_of_true zero_le_one (Or.inl (not_lt.mp hTotal))

/-
  The answer of a load: a counter is not negative, and a
  logged one is the number of those that it has seen. The
  requests are seen to be no fewer than the hits seen.
-/
def sightings :
    (c : ServiceCall) → (Counter → Finset Nat) → c.Answer →
      (Counter → Finset Nat) → Prop
| .load counter, seen, value, seen' =>
    (counter ≠ .totalLatencyNs → 0 ≤ value) ∧
      ∃ ids,
        seen' = Function.update seen counter ids ∧
          (counter.Logged → value = ids.card) ∧
            (counter = .totalRequests →
              (seen .l1Hits).card + (seen .l2Hits).card ≤
                ids.card)
| _, _, _, _ => False

/- The hits of a tier are a part of its lookups. -/
theorem rate_hits
    {hits misses : Int}
    (hHits : 0 ≤ hits)
    (hMisses : 0 ≤ misses) :
    0 ≤ rate hits (hits + misses) ∧
      rate hits (hits + misses) ≤ 1 :=
  ⟨rate_nonneg hHits,
    rate_le_one_iff.mpr (Or.inr (by omega))⟩

/- A snapshot whose loads answer so reports rates. -/
theorem snapshot_ensures
    (seen : Counter → Finset Nat) :
    snapshot.Ensures sightings (fun r _ => r.RatesOk)
      seen := by
  simp only [snapshot, load, Program.bind_eq,
    Program.perform_bind, Program.pure_eq,
    Program.ensures_call]
  intro l1Hits seen1 h1 l1Misses seen2 h2 l2Hits seen3 h3
    l2Misses seen4 h4 calls seen5 h5 errors seen6 h6
    coalesced seen7 h7 requests seen8 h8
  rcases h1 with ⟨hHits1, ids1, rfl, hSize1, _⟩
  rcases h2 with ⟨hMisses1, ids2, rfl, _⟩
  rcases h3 with ⟨hHits2, ids3, rfl, hSize2, _⟩
  rcases h4 with ⟨hMisses2, ids4, rfl, _⟩
  rcases h5 with ⟨_, ids5, rfl, _⟩
  rcases h6 with ⟨_, ids6, rfl, _⟩
  rcases h7 with ⟨_, ids7, rfl, _⟩
  rcases h8 with ⟨_, ids8, rfl, hSize8, hMany⟩
  have hL1 : l1Hits = (ids1.card : Int) :=
    hSize1 (Or.inl rfl)
  have hL2 : l2Hits = (ids3.card : Int) :=
    hSize2 (Or.inr (Or.inl rfl))
  have hTotal : requests = (ids8.card : Int) :=
    hSize8 (Or.inr (Or.inr rfl))
  have hRates1 :=
    rate_hits (hHits1 (by decide)) (hMisses1 (by decide))
  have hRates2 :=
    rate_hits (hHits2 (by decide)) (hMisses2 (by decide))
  -- the loads in between are of other counters
  have hCards : ids1.card + ids3.card ≤ ids8.card := by
    simpa using hMany rfl
  have hOverall :
      0 ≤ rate (l1Hits + l2Hits) requests ∧
        rate (l1Hits + l2Hits) requests ≤ 1 := by
    rw [hL1, hL2, hTotal]
    exact
      ⟨rate_nonneg (by omega),
        rate_le_one_iff.mpr (Or.inr (by omega))⟩
  by_cases hSome : 0 < requests
  · simp only [hSome, if_true, Program.ensures_call]
    intro totalNs seen9 h9
    exact ⟨hRates1, hRates2, hOverall⟩
  · simp only [hSome, if_false, Program.ret_bind]
    exact ⟨hRates1, hRates2, hOverall⟩

end CacheServer

------------------------------------------------------------
-- Rates
------------------------------------------------------------

namespace CacheServer

theorem ManagerSystem.subset_record
    (s : ManagerSystem)
    (counted : Counter → Finset Nat)
    (a : ManagerAction)
    (counter : Counter) :
    counted counter ⊆ s.record counted a counter := by
  cases a with
  | run id fault origin =>
      exact CountLog.subset_add counted id _ counter
  | _ => exact Finset.Subset.refl _

theorem Metrics.load_nonneg
    (m : Metrics)
    {counter : Counter}
    (hNe : counter ≠ .totalLatencyNs) :
    0 ≤ m.load counter := by
  cases counter with
  | totalLatencyNs => exact absurd rfl hNe
  | _ => exact Int.natCast_nonneg _

namespace SnapshotSystem

/- The log is true of the manager and of the snapshot. -/
structure Recorded
    (s : SnapshotSystem × CountLog) :
    Prop where
  tallied : s.1.manager.Tallied s.2.counted
  seen : ∀ counter, s.2.seen counter ⊆ s.2.counted counter
  left :
    s.1.left.Ensures sightings (fun r _ => r.RatesOk)
      s.2.seen

variable {cfg : ManagerConfig}
variable {s s' : SnapshotSystem × CountLog}
variable {a : SnapshotAction}

theorem recorded_new
    (maxSize : Int)
    (l1TTL : Int)
    (redis : Redis)
    (clock : Int) :
    Recorded (new maxSize l1TTL redis clock, CountLog.empty) :=
  ⟨ManagerSystem.tallied_new maxSize l1TTL redis clock,
    fun _ => Finset.Subset.refl _, snapshot_ensures _⟩

/- A `Get` that has counted a hit and has returned. -/
theorem Recorded.requested
    {id : Nat}
    (hRecorded : Recorded s)
    (hHit : id ∈ s.2.hits)
    (hEnd :
      (s.1.manager.procs id).any Proc.finished = true) :
    id ∈ s.2.counted .totalRequests := by
  have hPast :
      ∃ counter p,
        s.1.manager.procs id = some p ∧
          p.past counter = true := by
    rcases Finset.mem_union.mp hHit with hL1 | hL2
    · exact
        ⟨_, hRecorded.tallied.past .l1Hits id
          (hRecorded.seen .l1Hits hL1)⟩
    · exact
        ⟨_, hRecorded.tallied.past .l2Hits id
          (hRecorded.seen .l2Hits hL2)⟩
  rcases hPast with ⟨counter, p, hProc, hPast⟩
  rw [hProc] at hEnd
  cases p with
  | get key start pc =>
      cases pc with
      | done result =>
          exact
            hRecorded.tallied.returned id key start result hProc
      | _ => cases hEnd
  | set key value pc => cases hPast
  | invalidate key pc => cases hPast

/- Then no hit is seen whose request is not. -/
theorem Recorded.hits_le
    (hRecorded : Recorded s)
    (hEnd :
      ∀ id ∈ s.2.hits,
        (s.1.manager.procs id).any Proc.finished = true) :
    (s.2.seen .l1Hits).card + (s.2.seen .l2Hits).card ≤
      (s.2.counted .totalRequests).card := by
  have hApart :
      Disjoint (s.2.seen .l1Hits) (s.2.seen .l2Hits) :=
    Finset.disjoint_of_subset_left (hRecorded.seen .l1Hits)
      (Finset.disjoint_of_subset_right
        (hRecorded.seen .l2Hits) hRecorded.tallied.apart)
  rw [← Finset.card_union_of_disjoint hApart]
  apply Finset.card_le_card
  intro id hHit
  exact hRecorded.requested hHit (hEnd id hHit)

theorem recorded_step
    (hRecorded : Recorded s)
    (hIn : RequestsIn s a)
    (h : (snapshotMachine cfg).step s a = some s') :
    Recorded s' := by
  rcases s with ⟨s, log⟩
  rcases s' with ⟨s', log'⟩
  rcases Machine.withHistory_step.mp h with ⟨hStep, hLog⟩
  simp only at hStep hLog
  subst hLog
  cases a with
  | manager action =>
      rcases Option.map_eq_some_iff.mp hStep with
        ⟨manager, hManager, rfl⟩
      refine
        ⟨ManagerSystem.tallied_step hRecorded.tallied hManager,
          ?_, hRecorded.left⟩
      intro counter
      exact
        Finset.Subset.trans (hRecorded.seen counter)
          (s.manager.subset_record log.counted action counter)
  | load =>
      cases hLeft : s.left with
      | call c rest =>
          cases c with
          | load counter =>
              have hNext := hRecorded.left
              simp only [step, hLeft] at hStep hNext
              cases hStep
              simp only [record, hLeft]
              refine ⟨hRecorded.tallied, ?_, hNext _ _ ?_⟩
              · intro other
                by_cases hEq : other = counter
                · subst hEq
                  simp
                · simpa [hEq] using hRecorded.seen other
              · refine
                  ⟨s.manager.metrics.load_nonneg, _, rfl,
                    hRecorded.tallied.size counter, ?_⟩
                intro hEq
                subst hEq
                have hLoads : s.loadsRequests .load = true := by
                  simp [loadsRequests, hLeft]
                exact hRecorded.hits_le (hIn hLoads)
          | _ =>
              simp only [step, hLeft] at hStep
              cases hStep
      | ret r =>
          simp only [step, hLeft] at hStep
          cases hStep
      | crash =>
          simp only [step, hLeft] at hStep
          cases hStep

theorem recorded_exec
    {actions : List SnapshotAction}
    (hRecorded : Recorded s)
    (hIn : (snapshotMachine cfg).Along RequestsIn s actions)
    (hRun : (snapshotMachine cfg).exec s actions = some s') :
    Recorded s' :=
  Machine.exec_invariant_along
    (fun _ _ _ hI hIn hStep => recorded_step hI hIn hStep)
    hIn hRun hRecorded

end SnapshotSystem

/-
  A snapshot that is taken among lookups reports rates, if
  the lookups whose hits it has loaded are over when it
  loads the number of requests.
-/
theorem reported_rates_are_rates
    (cfg : ManagerConfig)
    (maxSize : Int)
    (l1TTL : Int)
    (redis : Redis)
    (clock : Int)
    (actions : List SnapshotAction)
    (s : SnapshotSystem)
    (log : CountLog)
    (r : Snapshot)
    (hIn :
      (snapshotMachine cfg).Along SnapshotSystem.RequestsIn
        (SnapshotSystem.new maxSize l1TTL redis clock,
          CountLog.empty)
        actions)
    (hRun :
      (snapshotMachine cfg).exec
          (SnapshotSystem.new maxSize l1TTL redis clock,
            CountLog.empty)
          actions =
        some (s, log))
    (hDone : s.left = .ret r) :
    r.RatesOk := by
  have hRecorded :=
    SnapshotSystem.recorded_exec
      (SnapshotSystem.recorded_new maxSize l1TTL redis clock)
      hIn hRun
  have hRates := hRecorded.left
  rw [hDone, Program.ensures_ret] at hRates
  exact hRates

/- Redis holds one key when the server starts. -/
def warmSystem : SnapshotSystem :=
  SnapshotSystem.new 1000 5
    ((∅ : Redis).set 0 100 [1] [7]) 0

/- Steps of one lookup in which nothing fails. -/
def SnapshotAction.proceeds
    (id : Nat)
    (steps : Nat) :
    List SnapshotAction :=
  List.replicate steps (.manager (.proceed id))

/-
  A lookup hits L2 and returns. Another hits L1 when its
  hits have been loaded, and has not returned at the end.
-/
def snapshotAmongHits : List SnapshotAction :=
  .manager (.call (.get [1])) ::
    .manager (.call (.get [1])) ::
      (SnapshotAction.proceeds 0 7 ++
        List.replicate 2 .load ++
        SnapshotAction.proceeds 1 3 ++
        List.replicate 7 .load)

theorem reported_rates_among_hits :
    ∃ s log r,
      (snapshotMachine ⟨true, 100⟩).exec
          (warmSystem, CountLog.empty) snapshotAmongHits =
        some (s, log) ∧
        s.left = .ret r ∧
          s.manager.metrics.l1Hits = 1 ∧
            r.overallHitRate = 1 ∧ r.RatesOk := by
  have hRun :
      (snapshotMachine ⟨true, 100⟩).exec
          (warmSystem, CountLog.empty) snapshotAmongHits =
        some (_, _) :=
    Machine.exec_get rfl
  refine ⟨_, _, _, hRun, rfl, rfl, ?_, ?_⟩
  · exact div_self one_ne_zero
  · exact
      reported_rates_are_rates ⟨true, 100⟩ 1000 5
        ((∅ : Redis).set 0 100 [1] [7]) 0 snapshotAmongHits
        _ _ _ (by decide) hRun rfl

/-
  A second lookup has counted its hit when the snapshot is
  taken, and not its request: two hits in one request.
-/
theorem reported_rates_exceeded :
    ¬ ∀ (cfg : ManagerConfig) (maxSize l1TTL : Int)
        (redis : Redis) (clock : Int)
        (actions : List SnapshotAction) (s : SnapshotSystem)
        (log : CountLog) (r : Snapshot),
      (snapshotMachine cfg).exec
          (SnapshotSystem.new maxSize l1TTL redis clock,
            CountLog.empty)
          actions =
        some (s, log) →
        s.left = .ret r → r.RatesOk := by
  intro h
  have hRun :
      (snapshotMachine ⟨true, 100⟩).exec
          (warmSystem, CountLog.empty)
          (.manager (.call (.get [1])) ::
            .manager (.call (.get [1])) ::
              (SnapshotAction.proceeds 0 7 ++
                SnapshotAction.proceeds 1 3 ++
                List.replicate 9 .load)) =
        some (_, _) :=
    Machine.exec_get rfl
  have hRates :=
    h ⟨true, 100⟩ 1000 5 ((∅ : Redis).set 0 100 [1] [7]) 0 _ _
      _ _ hRun rfl
  have hOver : rate 2 1 ≤ 1 := hRates.2.2.2
  exact absurd (rate_le_one_iff.mp hOver) (by decide)

end CacheServer
