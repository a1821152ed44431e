import CacheServer.Assets.Accounting
import CacheServer.Assets.Coherence

/-
  Asset requests that are served one at a time.

  In a serial run a request arrives only when no other is in
  flight. Such a run is at rest or in the middle of a single
  request, and an invariant of the two kinds of states is
  shown one step of a request at a time. Every request, in
  any run, gets its reply after a few steps of its own.

  Key definitions include:
    * `CacheServer.AssetEndpoint`
    * `CacheServer.AssetSystem.reply?`
    * `CacheServer.AssetSystem.Serial`
    * `CacheServer.AssetSystem.InPhase`
    * `CacheServer.AssetSystem.WillReply`

  Key theorems include:
    * `CacheServer.AssetSystem.inPhase_step`
    * `CacheServer.AssetSystem.reply_of_inPhase`
    * `CacheServer.AssetSystem.keysChecked_step`
    * `CacheServer.AssetSystem.willReply_of_run`
-/

------------------------------------------------------------
-- Replies And Their Requests
------------------------------------------------------------

namespace CacheServer

/- An endpoint, with the key that it is asked about. -/
inductive AssetEndpoint
| upload (key : Key)
| serveAsset (key : Key)
| deleteAsset (key : Key)
| getMeta (key : Key)
| listAssets
deriving DecidableEq, Repr

def AssetRequest.endpoint :
    AssetRequest → AssetEndpoint
| .upload filename _ _ => .upload filename
| .serveAsset filename => .serveAsset filename
| .deleteAsset key => .deleteAsset key
| .getMeta key => .getMeta key
| .listAssets => .listAssets

namespace AssetCall

/- The endpoint of a request that has no reply yet. -/
def endpoint? :
    AssetCall → Option AssetEndpoint
| .upload key _ _ _ => some (.upload key)
| .serveAsset key _ => some (.serveAsset key)
| .deleteAsset key _ => some (.deleteAsset key)
| .getMeta key => some (.getMeta key)
| .listAssets => some .listAssets
| .done _ => none

def reply? :
    AssetCall → Option Reply
| .done reply => some reply
| _ => none

/- The reply of a request that has become `next`. -/
def replies
    (call next : AssetCall) :
    Option (AssetEndpoint × Reply) :=
  call.endpoint?.bind
    (fun endpoint =>
      next.reply?.map (fun reply => (endpoint, reply)))

/- The request, as long as it is in flight. -/
def inFlight
    (call : AssetCall) :
    Option AssetCall :=
  if call.finished then none else some call

/- A request keeps its endpoint until it has its reply. -/
theorem endpoint_of_run
    {s s' : AssetStore}
    {fault : Fault}
    {order : MapOrder}
    {call next : AssetCall}
    {endpoint : AssetEndpoint}
    (hRun : call.run s fault order = some (s', next))
    (hNext : next.endpoint? = some endpoint) :
    call.endpoint? = some endpoint := by
  cases call with
  | upload key contentType body pc =>
      cases runUpload_step hRun with
      | stored _ => exact hNext
      | refused _ => cases hNext
      | hset size => exact hNext
      | sadd size => exact hNext
      | stamped size => exact hNext
      | filled _ => cases hNext
  | serveAsset key pc =>
      cases runServe_step hRun with
      | hit _ => cases hNext
      | miss _ => exact hNext
      | fetched _ _ => exact hNext
      | failed _ => cases hNext
      | stamped _ => exact hNext
      | filled _ => cases hNext
  | deleteAsset key pc =>
      cases pc with
      | remove =>
          cases hRun
          cases hNext
      | _ =>
          cases hRun
          exact hNext
  | getMeta key =>
      cases hRun
      cases hNext
  | listAssets =>
      cases hRun
      cases hNext
  | done reply => cases hRun

end AssetCall

/- A request that is refused gets an error status. -/
theorem BinaryHandler.status_of_refused
    {h : BinaryHandler}
    {request : AssetRequest}
    {reply : Reply}
    (hRefused : h.accept request = .done reply) :
    400 ≤ reply.status := by
  have hCases := h.accept_cases request
  rw [hRefused] at hCases
  cases hCases with
  | refused hStatus => exact hStatus

namespace AssetSystem

/- The reply that this action gives, and who gave it. -/
def reply?
    (s : AssetSystem) :
    AssetAction → Option (AssetEndpoint × Reply)
| .call _ request =>
    (s.handler.accept request).reply?.map
      (fun reply => (request.endpoint, reply))
| .run id fault order =>
    (s.calls.lookup id).bind
      (fun call =>
        (call.run s.store fault order).bind
          (fun r => call.replies r.2))
| .tick _ => none

theorem reply_of_run
    {s : AssetSystem}
    {id : Nat}
    {fault : Fault}
    {order : MapOrder}
    {call next : AssetCall}
    {store : AssetStore}
    (hCall : s.calls.lookup id = some call)
    (hRun : call.run s.store fault order = some (store, next)) :
    s.reply? (.run id fault order) = call.replies next := by
  simp [reply?, hCall, hRun]

/- A reply is given by a check or by a request's last step. -/
theorem reply_cases
    {s : AssetSystem}
    {a : AssetAction}
    {endpoint : AssetEndpoint}
    {reply : Reply}
    (h : s.reply? a = some (endpoint, reply)) :
    (∃ id request,
      a = .call id request ∧ request.endpoint = endpoint ∧
        s.handler.accept request = .done reply) ∨
      ∃ id fault order call store,
        a = .run id fault order ∧
          s.calls.lookup id = some call ∧
            call.endpoint? = some endpoint ∧
              call.run s.store fault order =
                some (store, .done reply) := by
  have hDone :
      ∀ call : AssetCall,
        call.reply? = some reply → call = .done reply := by
    intro call hReply
    cases call with
    | done other =>
        cases hReply
        rfl
    | _ => cases hReply
  cases a with
  | call id request =>
      rcases Option.map_eq_some_iff.mp h with
        ⟨other, hReply, hEq⟩
      cases hEq
      exact Or.inl ⟨id, request, rfl, rfl, hDone _ hReply⟩
  | run id fault order =>
      rcases Option.bind_eq_some_iff.mp h with
        ⟨call, hCall, hRest⟩
      rcases Option.bind_eq_some_iff.mp hRest with
        ⟨⟨store, next⟩, hRun, hLast⟩
      rcases Option.bind_eq_some_iff.mp hLast with
        ⟨asked, hAsked, hMap⟩
      rcases Option.map_eq_some_iff.mp hMap with
        ⟨other, hReply, hEq⟩
      cases hEq
      cases hDone _ hReply
      exact
        Or.inr
          ⟨id, fault, order, call, store, rfl, hCall, hAsked,
            hRun⟩
  | tick elapsed => cases h

end AssetSystem

end CacheServer

------------------------------------------------------------
-- Serial Runs
------------------------------------------------------------

namespace CacheServer

namespace AssetSystem

/- A request arrives only when no other is in flight. -/
def Serial
    (s : AssetSystem) :
    AssetAction → Prop
| .call _ _ => s.Quiescent
| _ => True

instance
    (s : AssetSystem)
    (a : AssetAction) :
    Decidable (s.Serial a) := by
  cases a with
  | call id request =>
      exact inferInstanceAs (Decidable s.Quiescent)
  | run id fault order => exact inferInstanceAs (Decidable True)
  | tick elapsed => exact inferInstanceAs (Decidable True)

/-
  The run is at rest, in phase `none`, or a single request
  is in flight, which is then the phase.
-/
def InPhase
    {β : Type}
    (Phase : Option AssetCall → AssetStore → β → Prop)
    (s : AssetSystem × β) :
    Prop :=
  (s.1.Quiescent ∧ Phase none s.1.store s.2) ∨
    ∃ id call,
      s.1.calls.lookup id = some call ∧
        call.finished = false ∧
          (∀ other c,
            s.1.calls.lookup other = some c →
              other ≠ id → c.finished = true) ∧
            Phase (some call) s.1.store s.2

theorem finished_of_quiescent
    {s : AssetSystem}
    {id : Nat}
    {call : AssetCall}
    (hQuiet : s.Quiescent)
    (hCall : s.calls.lookup id = some call) :
    call.finished = true :=
  hQuiet ⟨id, call⟩ (AList.mem_lookup_iff.mp hCall)

/- A finished request takes no step. -/
theorem not_finished_of_run
    {call : AssetCall}
    {s : AssetStore}
    {fault : Fault}
    {order : MapOrder}
    {r : AssetStore × AssetCall}
    (h : call.run s fault order = some r) :
    call.finished = false := by
  cases call with
  | done reply => cases h
  | _ => rfl

/- The phase after the only request has moved on. -/
theorem inPhase_insert
    {β : Type}
    {Phase : Option AssetCall → AssetStore → β → Prop}
    {s : AssetSystem}
    {id : Nat}
    {next : AssetCall}
    {store : AssetStore}
    {history : β}
    (hOthers :
      ∀ other c,
        s.calls.lookup other = some c →
          other ≠ id → c.finished = true)
    (hPhase : Phase next.inFlight store history) :
    InPhase Phase
      ({ s with
          store := store
          calls := s.calls.insert id next }, history) := by
  unfold AssetCall.inFlight at hPhase
  cases hDone : next.finished with
  | true =>
      rw [hDone] at hPhase
      refine Or.inl ⟨?_, hPhase⟩
      intro e he
      have hLookup :
          (s.calls.insert id next).lookup e.1 = some e.2 :=
        AList.mem_lookup_iff.mpr he
      rcases Table.lookup_insert_cases hLookup with
        ⟨_, hNext⟩ | ⟨hNe, hOld⟩
      · rw [hNext]
        exact hDone
      · exact hOthers e.1 e.2 hOld hNe
  | false =>
      rw [hDone] at hPhase
      refine
        Or.inr
          ⟨id, next, AList.lookup_insert _, hDone, ?_, hPhase⟩
      intro other c hLookup hNe
      rcases Table.lookup_insert_cases hLookup with
        ⟨hEq, _⟩ | ⟨_, hOld⟩
      · exact absurd hEq hNe
      · exact hOthers other c hOld hNe

/- The request that takes a step is the only one in flight. -/
theorem busy_of_run
    {β : Type}
    {Phase : Option AssetCall → AssetStore → β → Prop}
    {s : AssetSystem × β}
    {id : Nat}
    {call : AssetCall}
    (hPhase : InPhase Phase s)
    (hLookup : s.1.calls.lookup id = some call)
    (hNot : call.finished = false) :
    (∀ other c,
      s.1.calls.lookup other = some c →
        other ≠ id → c.finished = true) ∧
      Phase (some call) s.1.store s.2 := by
  rcases hPhase with ⟨hQuiet, _⟩ | hBusy
  · rw [finished_of_quiescent hQuiet hLookup] at hNot
    cases hNot
  · rcases hBusy with ⟨only, c, hOnly, _, hOthers, hMid⟩
    have hSame : id = only := by
      by_contra hNe
      rw [hOthers id call hLookup hNe] at hNot
      cases hNot
    subst hSame
    rw [hLookup] at hOnly
    cases hOnly
    exact ⟨hOthers, hMid⟩

/- A reply is a refusal, or ends the phase of its request. -/
theorem reply_of_inPhase
    {β : Type}
    {Phase : Option AssetCall → AssetStore → β → Prop}
    {s : AssetSystem × β}
    {a : AssetAction}
    {endpoint : AssetEndpoint}
    {reply : Reply}
    (hPhase : InPhase Phase s)
    (h : s.1.reply? a = some (endpoint, reply)) :
    (∃ id request,
      a = .call id request ∧ request.endpoint = endpoint ∧
        s.1.handler.accept request = .done reply ∧
          400 ≤ reply.status) ∨
      ∃ id fault order call store,
        a = .run id fault order ∧
          s.1.calls.lookup id = some call ∧
            call.endpoint? = some endpoint ∧
              call.run s.1.store fault order =
                  some (store, .done reply) ∧
                Phase (some call) s.1.store s.2 := by
  rcases reply_cases h with hRefused | hLast
  · rcases hRefused with ⟨id, request, rfl, hAsked, hDone⟩
    exact
      Or.inl
        ⟨id, request, rfl, hAsked, hDone,
          BinaryHandler.status_of_refused hDone⟩
  · rcases hLast with
      ⟨id, fault, order, call, store, rfl, hLookup, hAsked,
        hRun⟩
    have hMid :=
      (busy_of_run hPhase hLookup
        (not_finished_of_run hRun)).2
    exact
      Or.inr
        ⟨id, fault, order, call, store, rfl, hLookup, hAsked,
          hRun, hMid⟩

variable {β : Type}
variable {record : AssetSystem → AssetAction → β → β}
variable {Phase : Option AssetCall → AssetStore → β → Prop}
variable {P : AssetSystem × β → AssetAction → Prop}

/- The machine whose runs also keep a history. -/
abbrev recordedMachine
    (record : AssetSystem → AssetAction → β → β) :
    Machine (AssetSystem × β) AssetAction :=
  assetMachine.withHistory record

/-
  A phase that the arrival of a request establishes, and
  that its steps and the passing of time preserve, is kept
  by the steps of serial runs.
-/
theorem inPhase_step
    (hCall :
      ∀ (s : AssetSystem × β) id request,
        Phase none s.1.store s.2 →
          P s (.call id request) →
            Phase (s.1.handler.accept request).inFlight
              s.1.store (record s.1 (.call id request) s.2))
    (hRun :
      ∀ (s : AssetSystem × β) id fault order call store next,
        Phase (some call) s.1.store s.2 →
          s.1.calls.lookup id = some call →
            call.run s.1.store fault order =
                some (store, next) →
              P s (.run id fault order) →
                Phase next.inFlight store
                  (record s.1 (.run id fault order) s.2))
    (hTick :
      ∀ (s : AssetSystem × β) phase (elapsed : Nat),
        Phase phase s.1.store s.2 →
          Phase phase
            { s.1.store with
              clock := s.1.store.clock + elapsed }
            (record s.1 (.tick elapsed) s.2))
    {s s' : AssetSystem × β}
    {a : AssetAction}
    (hPhase : InPhase Phase s)
    (hSerial : s.1.Serial a)
    (hOk : P s a)
    (h : (recordedMachine record).step s a = some s') :
    InPhase Phase s' := by
  rcases s with ⟨s, history⟩
  rcases s' with ⟨s', history'⟩
  rcases Machine.withHistory_step.mp h with ⟨hStep, hLog⟩
  have hLog : history' = record s a history := hLog
  subst hLog
  rcases step_eq hStep with hNew | hMove | hTime
  · rcases hNew with ⟨id, request, rfl, _, hEq⟩
    cases hEq
    have hQuiet : s.Quiescent := hSerial
    have hRest : Phase none s.store history := by
      rcases hPhase with ⟨_, hRest⟩ | hBusy
      · exact hRest
      · rcases hBusy with ⟨other, call, hLookup, hNot, _⟩
        rw [finished_of_quiescent hQuiet hLookup] at hNot
        cases hNot
    exact
      inPhase_insert
        (fun _ _ hLookup _ =>
          finished_of_quiescent hQuiet hLookup)
        (hCall (s, history) id request hRest hOk)
  · rcases hMove with
      ⟨id, fault, order, call, store, next, rfl, hLookup, hGo,
        hEq⟩
    cases hEq
    rcases busy_of_run hPhase hLookup
      (not_finished_of_run hGo) with ⟨hOthers, hMid⟩
    exact
      inPhase_insert hOthers
        (hRun (s, history) id fault order call store next hMid
          hLookup hGo hOk)
  · rcases hTime with ⟨elapsed, rfl, hEq⟩
    cases hEq
    rcases hPhase with ⟨hQuiet, hRest⟩ | hBusy
    · exact Or.inl ⟨hQuiet, hTick (s, history) _ _ hRest⟩
    · rcases hBusy with ⟨id, call, hLookup, hNot, hOthers, hMid⟩
      exact
        Or.inr
          ⟨id, call, hLookup, hNot, hOthers,
            hTick (s, history) _ _ hMid⟩

theorem inPhase_new
    (handler : BinaryHandler)
    (minio : Table Key StoredObject)
    (redis : Redis)
    (maxBytes : Int)
    (clock : Int)
    (history : β)
    (hRest :
      Phase none
        (AssetSystem.new handler minio redis maxBytes
          clock).store history) :
    InPhase Phase
      (AssetSystem.new handler minio redis maxBytes clock,
        history) := by
  refine Or.inl ⟨?_, hRest⟩
  intro e he
  cases he

end AssetSystem

end CacheServer

------------------------------------------------------------
-- Every Request Gets Its Reply
------------------------------------------------------------

namespace CacheServer

namespace AssetCall

/- The request never passes the empty key to the cache. -/
def Keyed :
    AssetCall → Prop
| .upload key _ _ _ => key ≠ []
| .serveAsset key _ => key ≠ []
| _ => True

/- How many steps a request has still to take. -/
def remaining :
    AssetCall → Nat
| .upload _ _ _ .putObject => 5
| .upload _ _ _ (.hset _) => 4
| .upload _ _ _ (.sadd _) => 3
| .upload _ _ _ (.stamp _) => 2
| .upload _ _ _ (.fill _ _) => 1
| .serveAsset _ .lookup => 4
| .serveAsset _ .fetch => 3
| .serveAsset _ (.stamp _) => 2
| .serveAsset _ (.fill _) => 1
| .deleteAsset _ .removeObject => 4
| .deleteAsset _ .del => 3
| .deleteAsset _ .srem => 2
| .deleteAsset _ .remove => 1
| .getMeta _ => 1
| .listAssets => 1
| .done _ => 0

/- The handlers check the keys that they go by. -/
theorem accept_keyed
    (h : BinaryHandler)
    (request : AssetRequest) :
    (h.accept request).Keyed := by
  have hCases := h.accept_cases request
  generalize h.accept request = call at hCases ⊢
  cases hCases with
  | upload _ hKey => exact hKey
  | serveAsset _ hKey => exact hKey
  | deleteAsset _ _ => trivial
  | getMeta _ _ => trivial
  | listAssets _ => trivial
  | refused _ => trivial

variable {s s' : AssetStore}
variable {fault : Fault}
variable {order : MapOrder}
variable {call next : AssetCall}

/- A step keeps to nonempty keys and is one step less. -/
theorem run_keyed
    (hKeyed : call.Keyed)
    (hCache : s.cache.NoEmptyKey)
    (h : call.run s fault order = some (s', next)) :
    next.Keyed ∧ s'.cache.NoEmptyKey ∧
      next.remaining < call.remaining := by
  cases call with
  | upload key contentType body pc =>
      cases runUpload_step h with
      | stored _ => exact ⟨hKeyed, hCache, by simp [remaining]⟩
      | refused _ =>
          exact ⟨trivial, hCache, by simp [remaining]⟩
      | hset size => exact ⟨hKeyed, hCache, by simp [remaining]⟩
      | sadd size => exact ⟨hKeyed, hCache, by simp [remaining]⟩
      | stamped size =>
          exact ⟨hKeyed, hCache, by simp [remaining]⟩
      | filled hSet =>
          exact
            ⟨trivial,
              AssetCache.noEmptyKey_set hCache hKeyed hSet,
              by simp [remaining]⟩
  | serveAsset key pc =>
      have hLookup : (s.cache.get key).2.NoEmptyKey := by
        unfold AssetCache.NoEmptyKey
        rw [s.cache.get_items]
        exact hCache
      cases runServe_step h with
      | hit _ => exact ⟨trivial, hLookup, by simp [remaining]⟩
      | miss _ => exact ⟨hKeyed, hLookup, by simp [remaining]⟩
      | fetched _ _ =>
          exact ⟨hKeyed, hCache, by simp [remaining]⟩
      | failed _ => exact ⟨trivial, hCache, by simp [remaining]⟩
      | stamped _ => exact ⟨hKeyed, hCache, by simp [remaining]⟩
      | filled hSet =>
          exact
            ⟨trivial,
              AssetCache.noEmptyKey_set hCache hKeyed hSet,
              by simp [remaining]⟩
  | deleteAsset key pc =>
      cases pc with
      | removeObject =>
          cases h
          exact ⟨trivial, hCache, by simp [remaining]⟩
      | del =>
          cases h
          exact ⟨trivial, hCache, by simp [remaining]⟩
      | srem =>
          cases h
          exact ⟨trivial, hCache, by simp [remaining]⟩
      | remove =>
          cases h
          refine ⟨trivial, ?_, by simp [remaining]⟩
          exact
            AssetCache.noEmptyKey_of_lookup hCache
              (s.cache.drop_lookup key [])
  | getMeta key =>
      cases h
      exact ⟨trivial, hCache, by simp [remaining]⟩
  | listAssets =>
      cases h
      exact ⟨trivial, hCache, by simp [remaining]⟩
  | done reply => cases h

theorem eq_done
    (h : call.finished = true) :
    ∃ reply, call = .done reply := by
  cases call with
  | done reply => exact ⟨reply, rfl⟩
  | _ => cases h

/- Only a reply that has been given takes no step. -/
theorem exists_run
    (fault : Fault)
    (order : MapOrder)
    (hCache : s.cache.NoEmptyKey)
    (hNot : call.finished = false) :
    ∃ s' next, call.run s fault order = some (s', next) := by
  have hFill :
      ∀ key asset,
        ∃ cache, s.cache.set order key asset = some cache :=
    fun key asset =>
      Option.isSome_iff_exists.mp
        (AssetCache.set_isSome order key asset hCache)
  cases call with
  | upload key contentType body pc =>
      cases pc with
      | putObject =>
          cases fault with
          | none => exact ⟨_, _, rfl⟩
          | error applied text => exact ⟨_, _, rfl⟩
      | hset size => exact ⟨_, _, rfl⟩
      | sadd size => exact ⟨_, _, rfl⟩
      | stamp size => exact ⟨_, _, rfl⟩
      | fill size asset =>
          rcases hFill key asset with ⟨cache, hSet⟩
          exact
            ⟨_, _, Option.map_eq_some_iff.mpr ⟨cache, hSet, rfl⟩⟩
  | serveAsset key pc =>
      cases pc with
      | lookup =>
          simp only [run, runServe]
          rcases s.cache.get key with ⟨_ | cached, cache⟩
          · exact ⟨_, _, rfl⟩
          · exact ⟨_, _, rfl⟩
      | fetch =>
          simp only [run, runServe]
          split
          · exact ⟨_, _, rfl⟩
          · exact ⟨_, _, rfl⟩
          · exact ⟨_, _, rfl⟩
      | stamp obj => exact ⟨_, _, rfl⟩
      | fill asset =>
          rcases hFill key asset with ⟨cache, hSet⟩
          exact
            ⟨_, _, Option.map_eq_some_iff.mpr ⟨cache, hSet, rfl⟩⟩
  | deleteAsset key pc => exact ⟨_, _, rfl⟩
  | getMeta key => exact ⟨_, _, rfl⟩
  | listAssets => exact ⟨_, _, rfl⟩
  | done reply => cases hNot

end AssetCall

namespace AssetSystem

/- Neither the cache nor a request in flight has `[]`. -/
structure KeysChecked
    (s : AssetSystem) :
    Prop where
  cache : s.store.cache.NoEmptyKey
  calls :
    ∀ id call, s.calls.lookup id = some call → call.Keyed

theorem keysChecked_step
    {s s' : AssetSystem}
    {a : AssetAction}
    (hKeys : s.KeysChecked)
    (h : s.step a = some s') :
    s'.KeysChecked := by
  rcases step_eq h with hNew | hMove | hTime
  · rcases hNew with ⟨id, request, rfl, _, rfl⟩
    refine ⟨hKeys.cache, ?_⟩
    intro other call hLookup
    rcases Table.lookup_insert_cases hLookup with
      ⟨_, rfl⟩ | ⟨_, hOld⟩
    · exact AssetCall.accept_keyed s.handler request
    · exact hKeys.calls other call hOld
  · rcases hMove with
      ⟨id, fault, order, call, store, next, rfl, hCall, hRun,
        rfl⟩
    rcases AssetCall.run_keyed (hKeys.calls id call hCall)
      hKeys.cache hRun with ⟨hNext, hCache, _⟩
    refine ⟨hCache, ?_⟩
    intro other c hLookup
    rcases Table.lookup_insert_cases hLookup with
      ⟨_, rfl⟩ | ⟨_, hOld⟩
    · exact hNext
    · exact hKeys.calls other c hOld
  · rcases hTime with ⟨elapsed, rfl, rfl⟩
    exact ⟨hKeys.cache, hKeys.calls⟩

theorem keysChecked_new
    (handler : BinaryHandler)
    (minio : Table Key StoredObject)
    (redis : Redis)
    (maxBytes : Int)
    (clock : Int) :
    (AssetSystem.new handler minio redis maxBytes
      clock).KeysChecked := by
  refine ⟨AList.notMem_empty [], ?_⟩
  intro id call hLookup
  cases hLookup

/- A step of this request, whatever its commands do. -/
def Runs
    (id : Nat)
    (a : AssetAction) :
    Prop :=
  ∃ fault order, a = .run id fault order

def Replied
    (id : Nat)
    (s : AssetSystem) :
    Prop :=
  ∃ reply, s.calls.lookup id = some (.done reply)

/- The request gets a reply if it is let run. -/
def WillReply
    (s : AssetSystem)
    (id : Nat) :
    Prop :=
  assetMachine.LeadsTo (Runs id) (Replied id) s

theorem willReply_of_call
    {s : AssetSystem}
    {id : Nat}
    {call : AssetCall}
    (hKeys : s.KeysChecked)
    (hCall : s.calls.lookup id = some call) :
    s.WillReply id := by
  refine
    Machine.leadsTo_of_rank
      (I := fun n s =>
        s.KeysChecked ∧
          ∃ call,
            s.calls.lookup id = some call ∧
              call.remaining ≤ n)
      ?_ ?_ ⟨hKeys, call, hCall, le_refl call.remaining⟩
  · intro t hEnd
    rcases hEnd with ⟨hInv, c, hLookup, hLeft⟩
    cases hDone : c.finished with
    | true =>
        rcases AssetCall.eq_done hDone with ⟨reply, rfl⟩
        exact ⟨reply, hLookup⟩
    | false =>
        rcases AssetCall.exists_run .none .stored hInv.cache
          hDone with ⟨_, _, hRun⟩
        have hDrop :=
          (AssetCall.run_keyed (hInv.calls id c hLookup)
            hInv.cache hRun).2.2
        omega
  · intro n t hMore
    rcases hMore with ⟨hInv, c, hLookup, hLeft⟩
    cases hDone : c.finished with
    | true =>
        rcases AssetCall.eq_done hDone with ⟨reply, rfl⟩
        exact Or.inl ⟨reply, hLookup⟩
    | false =>
        apply Or.inr
        intro a hOwn
        rcases hOwn with ⟨fault, order, rfl⟩
        rcases AssetCall.exists_run fault order hInv.cache
          hDone with ⟨store, next, hRun⟩
        have hStep :
            t.step (.run id fault order) =
              some
                { t with
                  store := store
                  calls := t.calls.insert id next } := by
          simp [step, hLookup, hRun]
        have hDrop :=
          (AssetCall.run_keyed (hInv.calls id c hLookup)
            hInv.cache hRun).2.2
        refine
          ⟨_, hStep, keysChecked_step hInv hStep, next,
            AList.lookup_insert _, ?_⟩
        omega

/- Every request in every run gets its reply. -/
theorem willReply_of_run
    {handler : BinaryHandler}
    {minio : Table Key StoredObject}
    {redis : Redis}
    {maxBytes : Int}
    {clock : Int}
    {actions : List AssetAction}
    {s : AssetSystem}
    {id : Nat}
    {call : AssetCall}
    (hRun :
      assetMachine.exec
          (AssetSystem.new handler minio redis maxBytes clock)
          actions =
        some s)
    (hCall : s.calls.lookup id = some call) :
    s.WillReply id := by
  have hKeys : s.KeysChecked :=
    Machine.exec_invariant (I := KeysChecked)
      (fun _ _ _ hKeys hStep => keysChecked_step hKeys hStep)
      hRun (keysChecked_new _ _ _ _ _)
  exact willReply_of_call hKeys hCall

end AssetSystem

end CacheServer
