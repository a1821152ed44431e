import CacheServer.Service.Lookups

/-
  A `BatchSet` among other requests.

  The batch writes one entry after the other, each to L1 and
  then to L2. A history keeps its writes that have been
  applied; where the batch stands says which they are.

  Key definitions include:
    * `CacheServer.BatchLog`
    * `CacheServer.batchMachine`
    * `CacheServer.BatchLog.AllOrNone`
    * `CacheServer.BatchLog.FindsAll`
    * `CacheServer.BatchStage`

  Key theorems include:
    * `CacheServer.BatchStage.own`
    * `CacheServer.BatchStage.manager`
    * `CacheServer.batchSet_atomic`
-/

------------------------------------------------------------
-- The Writes Of A Batch
------------------------------------------------------------

namespace CacheServer

/- The entries that a batch has written so far, in order. -/
structure BatchLog where
  l1 : List KeyValue
  l2 : List KeyValue
deriving DecidableEq

def BatchLog.empty : BatchLog :=
  { l1 := [], l2 := [] }

namespace ServiceSystem

/- The write that the call `id` makes for request `batch`. -/
def ownWrite
    (batch : Nat)
    (s : ServiceSystem)
    (id : Nat) :
    Option (KeyValue × WritePc) :=
  match (s.requests batch).map Running.pc with
  | some (.wait other _ _) =>
      if other = id then
        match s.manager.procs id with
        | some (.set key value pc) =>
            some ({ key := key, value := value }, pc)
        | _ => none
      else
        none
  | _ => none

/- Only a write to L2 may not be applied. -/
def recordBatch
    (batch : Nat)
    (s : ServiceSystem) :
    ServiceAction → BatchLog → BatchLog
| .manager (.run id fault _), log =>
    match s.ownWrite batch id with
    | some (e, .l1) => { log with l1 := log.l1 ++ [e] }
    | some (e, .l2) =>
        if fault.applied then
          { log with l2 := log.l2 ++ [e] }
        else
          log
    | _ => log
| _, log => log

end ServiceSystem

/- The server, and the writes of one of its requests. -/
def batchMachine
    (cfg : ManagerConfig)
    (batch : Nat) :
    Machine (ServiceSystem × BatchLog) ServiceAction :=
  (serviceMachine cfg).withHistory
    (ServiceSystem.recordBatch batch)

end CacheServer

------------------------------------------------------------
-- All Or None
------------------------------------------------------------

namespace CacheServer

/- What a `Get` finds under its key when it looks in a tier. -/
def ManagerSystem.look
    (m : ManagerSystem) :
    ManagerAction → Option (Key × Option Value)
| .run id fault _ =>
    match m.procs id with
    | some (.get key _ .l1Read) =>
        some (key, (m.l1.read key).map (fun e => e.value))
    | some (.get key _ .l2Get) =>
        match L2Cache.get m.redis m.clock key fault with
        | .hit value => some (key, some value)
        | _ => some (key, none)
    | _ => none
| _ => none

def ServiceSystem.look
    (s : ServiceSystem) :
    ServiceAction → Option (Key × Option Value)
| .manager action => s.manager.look action
| _ => none

namespace BatchLog

/- All entries have been written to both tiers. -/
def Complete
    (entries : List (Option KeyValue))
    (log : BatchLog) :
    Prop :=
  ∀ entry ∈ entries,
    ∃ e ∈ log.l1, e ∈ log.l2 ∧ entry = some e

/- No entry is what a `Get` would find now. -/
def NoneVisible
    (entries : List (Option KeyValue))
    (s : ServiceSystem) :
    Prop :=
  ∀ e,
    some e ∈ entries →
      s.manager.shared.store.tierAnswer e.key .none ≠
        some e.value

/- What holds once the batch has returned. -/
def AllOrNone
    (batch : Nat)
    (entries : List (Option KeyValue))
    (x : ServiceSystem × BatchLog) :
    Prop :=
  ∀ r answer,
    x.1.requests batch = some r →
      r.pc = .done answer →
        x.2.Complete entries ∨ NoneVisible entries x.1

/-
  A `Get` that finds an entry which has been written finds
  that no other entry is missing.
-/
def FindsAll
    (entries : List (Option KeyValue))
    (x : ServiceSystem × BatchLog)
    (a : ServiceAction) :
    Prop :=
  ∀ e ∈ x.2.l1,
    x.1.look a = some (e.key, some e.value) →
      ∀ entry ∈ entries, ∃ other ∈ x.2.l1, entry = some other

instance decidableFindsAll
    (entries : List (Option KeyValue))
    (x : ServiceSystem × BatchLog)
    (a : ServiceAction) :
    Decidable (FindsAll entries x a) :=
  inferInstanceAs
    (Decidable
      (∀ e ∈ x.2.l1,
        x.1.look a = some (e.key, some e.value) →
          ∀ entry ∈ entries,
            ∃ other ∈ x.2.l1, entry = some other))

/- No write of the batch to L2 fails. -/
def Applied
    (batch : Nat)
    (x : ServiceSystem × BatchLog) :
    ServiceAction → Prop
| .manager (.run id fault _) =>
    (x.1.ownWrite batch id).map Prod.snd = some .l2 →
      fault.applied = true
| _ => True

instance decidableApplied
    (batch : Nat)
    (x : ServiceSystem × BatchLog) :
    ∀ a, Decidable (Applied batch x a)
| .manager (.run id fault _) =>
    inferInstanceAs
      (Decidable
        ((x.1.ownWrite batch id).map Prod.snd = some .l2 →
          fault.applied = true))
| .manager (.call _) => .isTrue trivial
| .manager (.background _ _) => .isTrue trivial
| .manager (.cancel _) => .isTrue trivial
| .manager (.redisDrop _) => .isTrue trivial
| .manager (.tick _) => .isTrue trivial
| .arrive _ => .isTrue trivial
| .serve _ _ => .isTrue trivial

/-
  No `Get` looks for an entry that has been written, before
  the batch has made as many writes to L1 as it has entries.
-/
def Isolated
    (entries : List (Option KeyValue))
    (x : ServiceSystem × BatchLog)
    (a : ServiceAction) :
    Prop :=
  ∀ e ∈ x.2.l1,
    (x.1.look a).map Prod.fst = some e.key →
      x.2.l1.length = entries.length

instance decidableIsolated
    (entries : List (Option KeyValue))
    (x : ServiceSystem × BatchLog)
    (a : ServiceAction) :
    Decidable (Isolated entries x a) :=
  inferInstanceAs
    (Decidable
      (∀ e ∈ x.2.l1,
        (x.1.look a).map Prod.fst = some e.key →
          x.2.l1.length = entries.length))

end BatchLog

end CacheServer

------------------------------------------------------------
-- Where The Batch Stands
------------------------------------------------------------

namespace CacheServer

/- What is left of the handler, with entries still to come. -/
def batchRest
    (counts : BatchSetResponse)
    (rest : List (Option KeyValue)) :
    ServiceProgram Answer :=
  (((Program.loop Grpc.setEntry counts rest).bind
    (fun counts =>
      .ret (Returned.ok counts))).bind
      (fun r => .ret (GrpcAnswer.batchSet r))).bind
        (fun answer => .ret (.grpc answer))

theorem batchRest_nil
    (counts : BatchSetResponse) :
    batchRest counts [] =
      .ret (.grpc (.batchSet (.ok counts))) := rfl

theorem batchRest_none
    (counts : BatchSetResponse)
    (rest : List (Option KeyValue)) :
    batchRest counts (none :: rest) = .crash := rfl

theorem batchRest_some
    (counts : BatchSetResponse)
    (e : KeyValue)
    (rest : List (Option KeyValue)) :
    batchRest counts (some e :: rest) =
      .call (.set e.key e.value)
        (fun error =>
          batchRest (Grpc.tally counts error) rest) := rfl

/- The writes of entry `e`, when those before it are done. -/
inductive EntryStage
    (done : List KeyValue)
    (e : KeyValue) :
    WritePc → BatchLog → Prop
| l1 :
    EntryStage done e .l1 { l1 := done, l2 := done }
| l2 :
    EntryStage done e .l2 { l1 := done ++ [e], l2 := done }
| done (error : Option Bytes) :
    EntryStage done e (.done error)
      { l1 := done ++ [e], l2 := done ++ [e] }

/- A place in the handler, and the writes made before it. -/
inductive BatchStage
    (entries : List (Option KeyValue))
    (m : ManagerSystem) :
    RequestPc → BatchLog → Prop
| next
    (done : List KeyValue)
    (rest : List (Option KeyValue))
    (counts : BatchSetResponse)
    (hEntries : entries = done.map some ++ rest) :
    BatchStage entries m (.handle (batchRest counts rest))
      { l1 := done, l2 := done }
| write
    {id : Nat}
    {pc : WritePc}
    {log : BatchLog}
    (done : List KeyValue)
    (e : KeyValue)
    (rest : List (Option KeyValue))
    (counts : BatchSetResponse)
    (hEntries : entries = done.map some ++ some e :: rest)
    (hProc : m.procs id = some (.set e.key e.value pc))
    (hStage : EntryStage done e pc log) :
    BatchStage entries m
      (.wait id (.set e.key e.value)
        (fun error =>
          batchRest (Grpc.tally counts error) rest))
      log
| after
    {pc : RequestPc}
    (done : List KeyValue)
    (hEntries : entries = done.map some)
    (hHandle : ∀ program, pc ≠ .handle program)
    (hWait : ∀ id call rest, pc ≠ .wait id call rest) :
    BatchStage entries m pc { l1 := done, l2 := done }

end CacheServer

------------------------------------------------------------
-- Steps Of The Batch And Of Others
------------------------------------------------------------

namespace CacheServer

variable {cfg : ManagerConfig}
variable {m m' : ManagerSystem}
variable {entries : List (Option KeyValue)}
variable {log : BatchLog}

/- A call that has been made stays where it is. -/
theorem ManagerSystem.begin_procs
    {id : Nat}
    {p : Proc}
    (hNum : m.Numbered)
    (call : ManagerCall)
    (hProc : m.procs id = some p) :
    (m.begin call).procs id = some p := by
  have hNe : id ≠ m.next :=
    Nat.ne_of_lt (m.lt_next hNum hProc)
  simpa [begin, hNe] using hProc

theorem Running.next_procs
    {r : Running}
    {alive : Bool}
    {pc : RequestPc}
    {id : Nat}
    {p : Proc}
    (hNum : m.Numbered)
    (hNext : r.Next m alive m' pc)
    (hProc : m.procs id = some p) :
    m'.procs id = some p := by
  cases hNext with
  | begin hPc hCall => exact m.begin_procs hNum _ hProc
  | _ => exact hProc

namespace BatchStage

/- A step that keeps the calls keeps the place. -/
theorem frame
    {pc : RequestPc}
    (hStage : BatchStage entries m pc log)
    (hProcs :
      ∀ id p,
        m.procs id = some p → m'.procs id = some p) :
    BatchStage entries m' pc log := by
  cases hStage with
  | next done rest counts hEntries =>
      exact .next done rest counts hEntries
  | write done e rest counts hEntries hProc hEntry =>
      exact
        .write done e rest counts hEntries
          (hProcs _ _ hProc) hEntry
  | after done hEntries hHandle hWait =>
      exact .after done hEntries hHandle hWait

/- The handler goes on, or what comes after it. -/
theorem own
    {r : Running}
    {alive : Bool}
    {pc : RequestPc}
    (hStage : BatchStage entries m r.pc log)
    (hGrpc : r.request.isGrpc = true)
    (hNext : r.Next m alive m' pc) :
    BatchStage entries m' pc log := by
  generalize hOld : r.pc = old at hStage
  cases hStage with
  | next done rest counts hEntries =>
      rcases rest with _ | ⟨_ | e, rest⟩
      · -- no entry is left
        rw [batchRest_nil] at hOld
        cases hNext with
        | returned hPc =>
            simp only [Running.after, hGrpc, if_true]
            refine .after done (by simpa using hEntries) ?_ ?_
            · intro program h
              cases h
            · intro id call rest h
              cases h
        | _ => simp_all
      · -- a nil entry
        rw [batchRest_none] at hOld
        cases hNext with
        | crash hPc _ =>
            rw [hOld]
            exact .next done (none :: rest) counts hEntries
        | recover hPc hHttp =>
            rw [hGrpc] at hHttp
            cases hHttp
        | _ => simp_all
      · -- the next write
        rw [batchRest_some] at hOld
        cases hNext with
        | begin hPc hCall =>
            cases hOld.symm.trans hPc
            cases hCall
            have hProc :
                (m.begin (.set e.key e.value)).procs m.next =
                  some (.set e.key e.value .l1) := by
              simp [ManagerSystem.begin, ManagerCall.proc]
            exact
              .write done e rest counts hEntries hProc .l1
        | instant answer hPc hCall =>
            cases hOld.symm.trans hPc
            cases hCall
        | _ => simp_all
  | write done e rest counts hEntries hProc hEntry =>
      rcases hNext.answered_of_wait hOld with
        ⟨p, answer, hCaller, hAnswer, rfl, rfl⟩
      rw [hProc] at hCaller
      cases hCaller
      cases hEntry with
      | done error =>
          cases hAnswer
          exact
            .next (done ++ [e]) rest _
              (by simpa using hEntries)
      | _ => cases hAnswer
  | after done hEntries hHandle hWait =>
      cases hNext with
      | addLatency elapsed hPc =>
          exact
            .after done hEntries
              (fun program h => by cases h)
              (fun id call rest h => by cases h)
      | countRequest hPc =>
          exact
            .after done hEntries
              (fun program h => by cases h)
              (fun id call rest h => by cases h)
      | answered hPc _ _ =>
          exact absurd (hOld.symm.trans hPc) (hWait _ _ _)
      | returned hPc =>
          exact absurd (hOld.symm.trans hPc) (hHandle _)
      | crash hPc _ =>
          exact absurd (hOld.symm.trans hPc) (hHandle _)
      | recover hPc _ =>
          exact absurd (hOld.symm.trans hPc) (hHandle _)
      | begin hPc _ =>
          exact absurd (hOld.symm.trans hPc) (hHandle _)
      | instant answer hPc _ =>
          exact absurd (hOld.symm.trans hPc) (hHandle _)

variable {s : ServiceSystem}
variable {batch : Nat}
variable {r : Running}

/- Nothing is written for a request that waits for nothing. -/
theorem ownWrite_of_not_wait
    (hRequest : s.requests batch = some r)
    (hWait : ∀ id call rest, r.pc ≠ .wait id call rest)
    (id : Nat) :
    s.ownWrite batch id = none := by
  unfold ServiceSystem.ownWrite
  rw [hRequest]
  cases hPc : r.pc with
  | wait other call rest => exact absurd hPc (hWait _ _ _)
  | _ => simp [hPc]

theorem ownWrite_of_wait
    {id : Nat}
    {call : ServiceCall}
    {rest : call.Answer → ServiceProgram Answer}
    {e : KeyValue}
    {pc : WritePc}
    (hRequest : s.requests batch = some r)
    (hPc : r.pc = .wait id call rest)
    (hProc :
      s.manager.procs id = some (.set e.key e.value pc)) :
    s.ownWrite batch id = some (e, pc) := by
  simp [ServiceSystem.ownWrite, hRequest, hPc, hProc]

theorem ownWrite_of_ne
    {id other : Nat}
    {call : ServiceCall}
    {rest : call.Answer → ServiceProgram Answer}
    (hRequest : s.requests batch = some r)
    (hPc : r.pc = .wait id call rest)
    (hNe : id ≠ other) :
    s.ownWrite batch other = none := by
  simp [ServiceSystem.ownWrite, hRequest, hPc, hNe]

/- An action without a write of the batch's is not recorded. -/
theorem record_of_none
    {action : ManagerAction}
    (hNone :
      ∀ id fault origin,
        action = .run id fault origin →
          s.ownWrite batch id = none) :
    s.recordBatch batch (.manager action) log = log := by
  cases action with
  | run id fault origin =>
      simp [ServiceSystem.recordBatch, hNone id fault origin rfl]
  | _ => rfl

/- A step of the manager may make the next write. -/
theorem manager
    {action : ManagerAction}
    (hStage : BatchStage entries s.manager r.pc log)
    (hRequest : s.requests batch = some r)
    (hNum : s.manager.Numbered)
    (hApplied :
      BatchLog.Applied batch (s, log) (.manager action))
    (h : s.manager.step cfg action = some m') :
    BatchStage entries m' r.pc
      (s.recordBatch batch (.manager action) log) := by
  generalize hPc : r.pc = pc at hStage ⊢
  cases hStage with
  | next done rest counts hEntries =>
      rw [record_of_none]
      · exact .next done rest counts hEntries
      · intro id fault origin _
        refine ownWrite_of_not_wait hRequest ?_ id
        intro other call rest hWait
        cases hPc.symm.trans hWait
  | after done hEntries hHandle hWait =>
      rw [record_of_none]
      · exact .after done hEntries hHandle hWait
      · intro id fault origin _
        exact
          ownWrite_of_not_wait hRequest
            (fun other call rest h =>
              hWait _ _ _ (hPc.symm.trans h))
            id
  | @write id pc log done e rest counts hEntries hProc
      hEntry =>
      by_cases hOwn :
          ∃ fault origin, action = .run id fault origin
      · rcases hOwn with ⟨fault, origin, rfl⟩
        have hWrite :=
          ownWrite_of_wait (e := e) hRequest hPc hProc
        rcases ManagerSystem.step_run_self h hProc with
          ⟨p', hNew, hRun⟩
        rcases Proc.run_set hRun with ⟨pc', rfl, hSet⟩
        cases hEntry with
        | l1 =>
            have hNext : WritePc.l2 = pc' :=
              (Prod.mk.inj (Option.some.inj hSet)).2
            subst hNext
            simp only [ServiceSystem.recordBatch, hWrite]
            exact
              .write done e rest counts hEntries hNew .l2
        | l2 =>
            have hNext : WritePc.done fault.reply = pc' :=
              (Prod.mk.inj (Option.some.inj hSet)).2
            subst hNext
            have hFault : fault.applied = true :=
              hApplied (by rw [hWrite]; rfl)
            simp only [ServiceSystem.recordBatch, hWrite,
              hFault, if_true]
            exact
              .write done e rest counts hEntries hNew
                (.done _)
        | done error => cases hSet
      · rw [record_of_none]
        · refine
            .write done e rest counts hEntries ?_ hEntry
          rcases ManagerSystem.step_proc_next hNum h hProc
            with hSame | ⟨fault, origin, _, hAction, _, _⟩
          · exact hSame
          · exact absurd ⟨fault, origin, hAction⟩ hOwn
        · intro other fault origin hAction
          refine ownWrite_of_ne hRequest hPc ?_
          intro hEq
          subst hEq
          exact hOwn ⟨fault, origin, hAction⟩

end BatchStage

end CacheServer

------------------------------------------------------------
-- Runs
------------------------------------------------------------

namespace CacheServer

variable {cfg : ManagerConfig}
variable {entries : List (Option KeyValue)}
variable {batch : Nat}
variable {x x' : ServiceSystem × BatchLog}
variable {a : ServiceAction}

/- The batch is in progress, and the log is its history. -/
structure BatchKept
    (cfg : ManagerConfig)
    (entries : List (Option KeyValue))
    (batch : Nat)
    (x : ServiceSystem × BatchLog) :
    Prop where
  known : x.1.Known cfg
  place :
    ∃ r,
      x.1.requests batch = some r ∧
        r.request.isGrpc = true ∧
          BatchStage entries x.1.manager r.pc x.2

theorem batchKept_step
    (hKept : BatchKept cfg entries batch x)
    (hApplied : BatchLog.Applied batch x a)
    (h : (batchMachine cfg batch).step x a = some x') :
    BatchKept cfg entries batch x' := by
  rcases Machine.withHistory_step.mp h with ⟨hStep, hLog⟩
  rcases hKept.place with ⟨r, hRequest, hGrpc, hStage⟩
  have hNum := hKept.known.balanced.1
  refine ⟨ServiceSystem.known_step hKept.known hStep, ?_⟩
  rcases ServiceSystem.step_cases hStep with
    ⟨request, rfl, hEq⟩ |
      ⟨id, pool, q, alive, m, pc, rfl, hOld, hNext, hEq⟩ |
      ⟨action, m, rfl, _, hManager, hEq⟩
  · have hNe : batch ≠ x.1.next :=
      Nat.ne_of_lt
        (ServiceSystem.lt_next hKept.known.recorded hRequest)
    refine ⟨r, ?_, hGrpc, ?_⟩
    · simpa [hEq, hNe] using hRequest
    · rw [hLog, hEq]
      exact hStage
  · by_cases hSame : id = batch
    · subst hSame
      rw [hRequest] at hOld
      cases hOld
      refine ⟨{ r with pc := pc }, ?_, hGrpc, ?_⟩
      · simp [hEq, ServiceSystem.put]
      · rw [hLog, hEq]
        exact hStage.own hGrpc hNext
    · refine ⟨r, ?_, hGrpc, ?_⟩
      · simpa [hEq, ServiceSystem.put, Ne.symm hSame]
          using hRequest
      · rw [hLog, hEq]
        exact
          hStage.frame
            (fun _ _ hProc =>
              Running.next_procs hNum hNext hProc)
  · refine ⟨r, ?_, hGrpc, ?_⟩
    · simpa [hEq] using hRequest
    · rw [hLog, hEq]
      exact
        hStage.manager hRequest hNum hApplied hManager

/- What has been written to L1 comes first in the list. -/
theorem BatchStage.l1_append
    {m : ManagerSystem}
    {pc : RequestPc}
    {log : BatchLog}
    (hStage : BatchStage entries m pc log) :
    ∃ rest, entries = log.l1.map some ++ rest := by
  cases hStage with
  | next done rest counts hEntries => exact ⟨rest, hEntries⟩
  | after done hEntries _ _ => exact ⟨[], by simp [hEntries]⟩
  | write done e rest counts hEntries _ hEntry =>
      cases hEntry with
      | l1 => exact ⟨some e :: rest, hEntries⟩
      | l2 => exact ⟨rest, by simp [hEntries]⟩
      | done error => exact ⟨rest, by simp [hEntries]⟩

/- What has returned has written everything. -/
theorem allOrNone_of_kept
    (hKept : BatchKept cfg entries batch x) :
    BatchLog.AllOrNone batch entries x := by
  intro r answer hRequest hDone
  rcases hKept.place with ⟨q, hSame, _, hStage⟩
  rw [hRequest] at hSame
  cases hSame
  rw [hDone] at hStage
  generalize x.2 = log at hStage ⊢
  cases hStage with
  | after done hEntries _ _ =>
      refine Or.inl ?_
      intro entry hMem
      rw [hEntries] at hMem
      rcases List.mem_map.mp hMem with ⟨e, hE, rfl⟩
      exact ⟨e, hE, hE, rfl⟩

/- As many writes as entries are all the writes. -/
theorem findsAll_of_kept
    (hKept : BatchKept cfg entries batch x)
    (hIsolated : BatchLog.Isolated entries x a) :
    BatchLog.FindsAll entries x a := by
  intro e hE hLook entry hMem
  rcases hKept.place with ⟨r, _, _, hStage⟩
  rcases hStage.l1_append with ⟨rest, hEntries⟩
  have hLen : x.2.l1.length = entries.length :=
    hIsolated e hE (by rw [hLook]; rfl)
  have hRest : rest = [] := by
    rw [hEntries, List.length_append, List.length_map]
      at hLen
    exact List.eq_nil_of_length_eq_zero (by omega)
  rw [hEntries, hRest, List.append_nil] at hMem
  rcases List.mem_map.mp hMem with ⟨other, hOther, rfl⟩
  exact ⟨other, hOther, rfl⟩

/- A batch that has just arrived has written nothing. -/
theorem batchKept_arrive
    {s : ServiceSystem}
    (hKnown : s.Known cfg)
    (h :
      (batchMachine cfg s.next).step (s, .empty)
          (.arrive (.grpc (.batchSet entries))) =
        some x) :
    BatchKept cfg entries s.next x := by
  rcases Machine.withHistory_step.mp h with ⟨hStep, hLog⟩
  refine ⟨ServiceSystem.known_step hKnown hStep, ?_⟩
  rcases ServiceSystem.step_cases hStep with
    ⟨request, hAction, hEq⟩ | ⟨_, _, _, _, _, _, hAction, _⟩ |
      ⟨_, _, hAction, _⟩
  · cases hAction
    refine
      ⟨s.arrived (.grpc (.batchSet entries)), ?_, rfl, ?_⟩
    · simp [hEq]
    · rw [hLog]
      exact .next [] entries Grpc.noCounts rfl
  · cases hAction
  · cases hAction

/-
  A batch none of whose writes to L2 fails, and into whose
  writes no `Get` looks, is written as a whole, and no `Get`
  finds it in part.
-/
theorem batchSet_atomic
    (cfg : ManagerConfig)
    (maxSize : Int)
    (l1TTL : Int)
    (redis : Redis)
    (clock : Int)
    (before : List ServiceAction)
    (s : ServiceSystem)
    (entries : List (Option KeyValue))
    (actions : List ServiceAction)
    (x : ServiceSystem × BatchLog)
    (hStart :
      (serviceMachine cfg).exec
          (ServiceSystem.new maxSize l1TTL redis clock)
          before =
        some s)
    (hRun :
      (batchMachine cfg s.next).exec (s, .empty)
          (.arrive (.grpc (.batchSet entries)) :: actions) =
        some x)
    (hSteps :
      (batchMachine cfg s.next).Along
        (fun y a =>
          BatchLog.Applied s.next y a ∧
            BatchLog.Isolated entries y a)
        (s, .empty)
        (.arrive (.grpc (.batchSet entries)) :: actions)) :
    BatchLog.AllOrNone s.next entries x ∧
      (batchMachine cfg s.next).Along
        (BatchLog.FindsAll entries) (s, .empty)
        (.arrive (.grpc (.batchSet entries)) :: actions) := by
  rcases Machine.exec_cons.mp hRun with ⟨y, hArrive, hRest⟩
  have hKept : BatchKept cfg entries s.next y :=
    batchKept_arrive (ServiceSystem.known_exec hStart) hArrive
  have hStep :
      ∀ u a u',
        BatchKept cfg entries s.next u →
          BatchLog.Applied s.next u a ∧
              BatchLog.Isolated entries u a →
            (batchMachine cfg s.next).step u a = some u' →
              BatchKept cfg entries s.next u' :=
    fun u a u' hU hCond h => batchKept_step hU hCond.1 h
  have hTail := hSteps.2 y hArrive
  constructor
  · exact
      allOrNone_of_kept
        (Machine.exec_invariant_along hStep hTail hRest hKept)
  · refine ⟨fun e hE _ => (by cases hE), ?_⟩
    intro z hZ
    rw [hArrive] at hZ
    cases hZ
    exact
      Machine.along_of_invariant hStep
        (fun u a hU hCond => findsAll_of_kept hU hCond.2)
        hTail hKept

/- Two entries to write. -/
def twoEntries : List (Option KeyValue) :=
  [some { key := [7], value := [1] },
    some { key := [8], value := [2] }]

/- Both entries are written, and then a `Get` comes. -/
def batchThenGet : List ServiceAction :=
  [.proceed 0, .manager (.proceed 0), .manager (.proceed 0),
    .proceed 0, .proceed 0, .manager (.proceed 1),
    .manager (.proceed 1), .proceed 0, .proceed 0, .proceed 0,
    .proceed 0, .arrive (.http (.getCache [7])), .proceed 1,
    .manager (.proceed 2)]

/- What is known of a batch with a `Get` after it. -/
theorem batchSet_atomic_two :
    BatchLog.AllOrNone 0 twoEntries
        (((batchMachine directConfig 0).exec
            (freshService, .empty)
            (.arrive (.grpc (.batchSet twoEntries)) ::
              batchThenGet)).get
          (by decide)) ∧
      (batchMachine directConfig 0).Along
        (BatchLog.FindsAll twoEntries)
        (freshService, .empty)
        (.arrive (.grpc (.batchSet twoEntries)) ::
          batchThenGet) :=
  batchSet_atomic directConfig 1000 5 ∅ 0 [] freshService
    twoEntries batchThenGet _ rfl
    (Machine.exec_get (by decide)) (by decide)

/-
  A `Get` comes after the first entry, and the last write to
  L2 is refused.
-/
def batchWithGet : List ServiceAction :=
  [.proceed 0, .manager (.proceed 0), .manager (.proceed 0),
    .arrive (.http (.getCache [7])), .proceed 1,
    .manager (.proceed 1), .proceed 0, .proceed 0,
    .manager (.proceed 2),
    .manager (.run 2 (.error false [0]) (.value [])),
    .proceed 0, .proceed 0, .proceed 0, .proceed 0]

/-
  The `Get` finds the first entry before the second one is
  written; the second entry never reaches L2, and both are
  visible after the batch has returned.
-/
theorem batchSet_torn :
    ∃ x,
      (batchMachine directConfig 0).exec
            (freshService, .empty)
            (.arrive (.grpc (.batchSet twoEntries)) ::
              batchWithGet) =
          some x ∧
        ¬ BatchLog.AllOrNone 0 twoEntries x ∧
          ¬ (batchMachine directConfig 0).Along
            (BatchLog.FindsAll twoEntries)
            (freshService, .empty)
            (.arrive (.grpc (.batchSet twoEntries)) ::
              batchWithGet) := by
  refine
    ⟨_, Machine.exec_get (by decide), ?_, by decide⟩
  intro h
  rcases h _ _ rfl rfl with hComplete | hNone
  · rcases hComplete (some { key := [8], value := [2] })
      (by decide) with ⟨e, _, hL2, hEntry⟩
    cases hEntry
    exact absurd hL2 (by decide)
  · exact
      absurd rfl
        (hNone { key := [7], value := [1] } (by decide))

end CacheServer
