import CacheServer.Assets.SerialRequests

/-
  What an upload stores.

  `upload` reads its body through a reader that ends after
  `maxUpload` bytes, and takes the end of the reader for the
  end of the body. A longer body is cut off: MinIO and the
  cache get the first `maxUpload` bytes, and the reply is
  that the asset has been uploaded.

  Key definitions include:
    * `CacheServer.UploadRun`
    * `CacheServer.StoredWhole`
    * `CacheServer.KeepsUpload`

  Key theorems include:
    * `CacheServer.uploadStage_step`
    * `CacheServer.uploadRun_cases`
    * `CacheServer.upload_stored_whole_iff`
    * `CacheServer.upload_cut_off`
-/

------------------------------------------------------------
-- An Upload Alone
------------------------------------------------------------

namespace CacheServer

/- A step of this request, or time passing. -/
def AssetAction.Only
    (id : Nat) :
    AssetAction → Prop
| .run other _ _ => other = id
| .tick _ => True
| .call _ _ => False

namespace AssetSystem

/- The outcome of the first command of a run. -/
def firstOutcome
    (_ : AssetSystem)
    (a : AssetAction)
    (outcome : Option Fault) :
    Option Fault :=
  match a with
  | .run _ fault _ => some (outcome.getD fault)
  | _ => outcome

end AssetSystem

/-
  An upload arrives and gets its reply with no step of any
  other request in between; `put` is the outcome of its
  `PutObject`, if it is called.
-/
structure UploadRun
    (s : AssetSystem)
    (id : Nat)
    (filename : Key)
    (header : Bytes)
    (body : Option Bytes)
    (actions : List AssetAction)
    (s' : AssetSystem)
    (put : Option Fault)
    (reply : Reply) :
    Prop where
  run :
    (AssetSystem.recordedMachine
      AssetSystem.firstOutcome).exec (s, none)
        (.call id (.upload filename header body) :: actions) =
      some (s', put)
  alone : ∀ a ∈ actions, a.Only id
  replied : s'.calls.lookup id = some (.done reply)

/-
  A `serveAsset` that comes next is answered at once, with
  these bytes.
-/
def AssetSystem.ServesNext
    (s : AssetSystem)
    (filename : Key)
    (data : Bytes) :
    Prop :=
  ∀ id fault order,
    id ∉ s.calls →
      ∃ t reply,
        assetMachine.exec s
            [.call id (.serveAsset filename),
              .run id fault order] = some t ∧
          t.calls.lookup id = some (.done reply) ∧
            reply.status = 200 ∧ reply.body = data

/-
  The upload is accepted, and MinIO, the cache and the next
  serve have the whole body; or it is rejected, and neither
  MinIO nor the cache has changed.
-/
def StoredWhole
    (s s' : AssetSystem)
    (filename : Key)
    (body : Option Bytes)
    (reply : Reply) :
    Prop :=
  (reply.status = 201 ∧
    ∃ sent obj asset,
      body = some sent ∧
        s'.store.minio.lookup filename = some obj ∧
          obj.data = sent ∧
            s'.store.cache.items.lookup filename =
                some asset ∧
              asset.data = sent ∧
                s'.ServesNext filename sent) ∨
    (reply.status ≠ 201 ∧
      (∀ key,
        s'.store.minio.lookup key = s.store.minio.lookup key) ∧
        s'.store.cache.items = s.store.cache.items)

/- What `upload` hands to `PutObject`. -/
def putInput
    (filename : Key)
    (header sent : Bytes) :
    StoredObject :=
  { data := sent.take maxUpload
    contentType := uploadContentType header filename }

/-
  `PutObject` is not called; it succeeds and the body is
  within the limit; or it fails and has not changed MinIO.
-/
def KeepsUpload
    (s : AssetSystem)
    (filename : Key)
    (header : Bytes)
    (body : Option Bytes) :
    Option Fault → Prop
| none => True
| some .none =>
    ∀ sent, body = some sent → sent.length ≤ maxUpload
| some (.error applied _) =>
    ∀ sent,
      body = some sent →
        applied = false ∨
          s.store.minio.lookup filename =
            some (putInput filename header sent)

end CacheServer

------------------------------------------------------------
-- The Stages Of An Upload
------------------------------------------------------------

namespace CacheServer

/-
  Where an upload of `obj` stands, by the outcome of its
  `PutObject`, and what it has changed since `s`.
-/
inductive UploadStage
    (s : AssetStore)
    (key : Key)
    (obj : StoredObject) :
    Option Fault → AssetStore → AssetCall → Prop
| waiting
    {t : AssetStore}
    (hMinio : t.minio = s.minio)
    (hItems : t.cache.items = s.cache.items) :
    UploadStage s key obj none t
      (.upload key obj.contentType obj.data .putObject)
| failed
    {t : AssetStore}
    {applied : Bool}
    {text : Bytes}
    (hMinio :
      t.minio =
        (Fault.error applied text).apply s.minio
          (s.minio.insert key obj))
    (hItems : t.cache.items = s.cache.items) :
    UploadStage s key obj (some (.error applied text)) t
      (.done (uploadFailed text))
| storing
    {t : AssetStore}
    {pc : UploadPc}
    (hPc : pc ≠ .putObject)
    (hFill :
      ∀ size asset,
        pc = .fill size asset → asset.data = obj.data)
    (hMinio : t.minio.lookup key = some obj) :
    UploadStage s key obj (some .none) t
      (.upload key obj.contentType obj.data pc)
| stored
    {t : AssetStore}
    {size : Int}
    {asset : CachedAsset}
    (hMinio : t.minio.lookup key = some obj)
    (hCache : t.cache.items.lookup key = some asset)
    (hData : asset.data = obj.data) :
    UploadStage s key obj (some .none) t
      (.done (uploaded key size obj.contentType))

/- Time passing does not change the stage. -/
theorem uploadStage_tick
    {s t : AssetStore}
    {key : Key}
    {obj : StoredObject}
    {put : Option Fault}
    {call : AssetCall}
    (clock : Int)
    (h : UploadStage s key obj put t call) :
    UploadStage s key obj put { t with clock := clock }
      call := by
  cases h with
  | waiting hMinio hItems => exact .waiting hMinio hItems
  | failed hMinio hItems => exact .failed hMinio hItems
  | storing hPc hFill hMinio => exact .storing hPc hFill hMinio
  | stored hMinio hCache hData =>
      exact .stored hMinio hCache hData

theorem uploadStage_step
    {s t t' : AssetStore}
    {key : Key}
    {obj : StoredObject}
    {put : Option Fault}
    {fault : Fault}
    {order : MapOrder}
    {call next : AssetCall}
    (hStage : UploadStage s key obj put t call)
    (h : call.run t fault order = some (t', next)) :
    UploadStage s key obj (some (put.getD fault)) t' next := by
  cases hStage with
  | waiting hMinio hItems =>
      have hRun :
          AssetCall.runUpload t key obj.contentType obj.data
              fault order .putObject =
            some (t', next) :=
        h
      cases AssetCall.runUpload_step hRun with
      | stored hFault =>
          subst hFault
          exact
            .storing (fun hPc => by cases hPc)
              (fun _ _ hPc => by cases hPc)
              (AList.lookup_insert _)
      | refused hFault =>
          subst hFault
          exact .failed (by rw [hMinio]) hItems
  | failed hMinio hItems => cases h
  | storing hPc hFill hMinio =>
      cases AssetCall.runUpload_step h with
      | stored _ => exact absurd rfl hPc
      | refused _ => exact absurd rfl hPc
      | hset size =>
          exact
            .storing (fun hEq => by cases hEq)
              (fun _ _ hEq => by cases hEq) hMinio
      | sadd size =>
          exact
            .storing (fun hEq => by cases hEq)
              (fun _ _ hEq => by cases hEq) hMinio
      | stamped size =>
          refine .storing (fun hEq => by cases hEq) ?_ hMinio
          intro size' asset hEq
          cases hEq
          rfl
      | filled hSet =>
          exact
            .stored hMinio (AssetCache.set_lookup hSet).1
              (hFill _ _ rfl)
  | stored hMinio hCache hData => cases h

end CacheServer

------------------------------------------------------------
-- How An Upload Ends
------------------------------------------------------------

namespace CacheServer

open AssetSystem

section

variable {s s' : AssetSystem}
variable {id : Nat}
variable {filename : Key}
variable {header : Bytes}
variable {body : Option Bytes}
variable {actions : List AssetAction}
variable {put : Option Fault}
variable {reply : Reply}

/- What the steps of one request, and time, preserve. -/
theorem only_invariant
    {I : AssetSystem → Option Fault → Prop}
    (hRun :
      ∀ t outcome fault order call store next,
        I t outcome →
          t.calls.lookup id = some call →
            call.run t.store fault order =
                some (store, next) →
              I
                { t with
                  store := store
                  calls := t.calls.insert id next }
                (some (outcome.getD fault)))
    (hTick :
      ∀ (t : AssetSystem) outcome (elapsed : Nat),
        I t outcome →
          I
            { t with
              store :=
                { t.store with
                  clock := t.store.clock + elapsed } }
            outcome)
    {t : AssetSystem}
    {outcome : Option Fault}
    (hOnly : ∀ a ∈ actions, a.Only id)
    (hExec :
      (recordedMachine firstOutcome).exec (t, outcome)
          actions =
        some (s', put))
    (hInit : I t outcome) :
    I s' put := by
  refine
    Machine.exec_invariant_along
      (I := fun u : AssetSystem × Option Fault => I u.1 u.2)
      (P := fun _ a => a.Only id) ?_
      (Machine.along_of_forall_mem hOnly) hExec hInit
  intro u a u' hInv hA hStep
  rcases Machine.withHistory_step.mp hStep with ⟨hNext, hLog⟩
  rcases step_eq hNext with hNew | hMove | hTime
  · rcases hNew with ⟨other, request, rfl, _⟩
    cases hA
  · rcases hMove with
      ⟨other, fault, order, call, store, next, rfl, hLookup,
        hGo, hEq⟩
    have hSame : other = id := hA
    subst hSame
    rw [hLog, hEq]
    exact
      hRun u.1 u.2 fault order call store next hInv hLookup hGo
  · rcases hTime with ⟨elapsed, rfl, hEq⟩
    rw [hLog, hEq]
    exact hTick u.1 u.2 elapsed hInv

/- The run once the upload has arrived. -/
theorem uploadRun_arrived
    (h :
      UploadRun s id filename header body actions s' put
        reply) :
    (recordedMachine firstOutcome).exec
        ({ s with
            calls :=
              s.calls.insert id
                (s.handler.accept
                  (.upload filename header body)) }, none)
        actions =
      some (s', put) := by
  rcases Machine.exec_cons.mp h.run with
    ⟨⟨t, outcome⟩, hFirst, hRest⟩
  rcases Machine.withHistory_step.mp hFirst with
    ⟨hArrive, hNone⟩
  have hNone : outcome = none := hNone
  subst hNone
  have hMem : id ∉ s.calls := by
    intro hMem
    simp [assetMachine, step, hMem] at hArrive
  have hStart :
      t =
        { s with
          calls :=
            s.calls.insert id
              (s.handler.accept
                (.upload filename header body)) } := by
    simpa [assetMachine, step, hMem] using hArrive.symm
  rw [← hStart]
  exact hRest

/-
  An upload is refused before its `PutObject`, or it goes
  through the stages up to its reply.
-/
theorem uploadRun_cases
    (h :
      UploadRun s id filename header body actions s' put
        reply) :
    (400 ≤ reply.status ∧ put = none ∧
      s'.store.minio = s.store.minio ∧
        s'.store.cache.items = s.store.cache.items) ∨
      ∃ sent,
        body = some sent ∧ s.handler.ready = true ∧
          filename ≠ [] ∧ s'.handler = s.handler ∧
            UploadStage s.store filename
              (putInput filename header sent) put s'.store
              (.done reply) := by
  have hRest := uploadRun_arrived h
  have hCases :=
    s.handler.accept_cases (.upload filename header body)
  generalize s.handler.accept (.upload filename header body) =
    call at hRest hCases
  cases hCases with
  | refused hStatus =>
      rename_i refusal
      have hEnd :=
        only_invariant
          (I := fun t outcome =>
            t.calls.lookup id = some (.done refusal) ∧
              outcome = none ∧
                t.store.minio = s.store.minio ∧
                  t.store.cache.items = s.store.cache.items)
          ?_ (fun _ _ _ hInv => hInv) h.alone hRest
          ⟨AList.lookup_insert _, rfl, rfl, rfl⟩
      · rcases hEnd with ⟨hLookup, hPut, hMinio, hItems⟩
        rw [h.replied] at hLookup
        cases hLookup
        exact Or.inl ⟨hStatus, hPut, hMinio, hItems⟩
      · intro u put' fault order c store next hInv hLookup hGo
        rw [hInv.1] at hLookup
        cases hLookup
        cases hGo
  | upload hReady hKey =>
      rename_i sent
      have hEnd :=
        only_invariant
          (I := fun t outcome =>
            t.handler = s.handler ∧
              ∃ call,
                t.calls.lookup id = some call ∧
                  UploadStage s.store filename
                    (putInput filename header sent) outcome
                    t.store call)
          ?_ ?_ h.alone hRest
          ⟨rfl, _, AList.lookup_insert _,
            .waiting rfl rfl⟩
      · rcases hEnd with ⟨hHandler, c, hLookup, hStage⟩
        rw [h.replied] at hLookup
        cases hLookup
        exact
          Or.inr ⟨sent, rfl, hReady, hKey, hHandler, hStage⟩
      · intro u put' fault order c store next hInv hLookup hGo
        rcases hInv with ⟨hHandler, c', hOther, hStage⟩
        rw [hLookup] at hOther
        cases hOther
        exact
          ⟨hHandler, next, AList.lookup_insert _,
            uploadStage_step hStage hGo⟩
      · intro u put' elapsed hInv
        rcases hInv with ⟨hHandler, c, hLookup, hStage⟩
        exact
          ⟨hHandler, c, hLookup, uploadStage_tick _ hStage⟩

/- A cached asset is what the next serve replies with. -/
theorem servesNext_of_cached
    {asset : CachedAsset}
    (hReady : s.handler.ready = true)
    (hKey : filename ≠ [])
    (hCache :
      s.store.cache.items.lookup filename = some asset) :
    s.ServesNext filename asset.data := by
  intro other fault order hFresh
  have hAccept :
      s.handler.accept (.serveAsset filename) =
        .serveAsset filename .lookup := by
    simp [BinaryHandler.accept, hReady, hKey]
  have hArrive :
      s.step (.call other (.serveAsset filename)) =
        some
          { s with
            calls :=
              s.calls.insert other
                (.serveAsset filename .lookup) } := by
    simp [step, hFresh, hAccept]
  have hHit :
      AssetCall.run s.store fault order
          (.serveAsset filename .lookup) =
        some
          ({ s.store with
              cache := (s.store.cache.get filename).2 },
            .done (served asset (bytes "HIT"))) := by
    simp [AssetCall.run, AssetCall.runServe, AssetCache.get,
      hCache]
  have hReply :
      AssetSystem.step
          { s with
            calls :=
              s.calls.insert other
                (.serveAsset filename .lookup) }
          (.run other fault order) =
        some
          { s with
            store :=
              { s.store with
                cache := (s.store.cache.get filename).2 }
            calls :=
              (s.calls.insert other
                (.serveAsset filename .lookup)).insert other
                  (.done (served asset (bytes "HIT"))) } := by
    simp [step, hHit]
  exact
    ⟨_, served asset (bytes "HIT"),
      Machine.exec_cons.mpr
        ⟨_, hArrive,
          Machine.exec_cons.mpr
            ⟨_, hReply, Machine.exec_nil _⟩⟩,
      AList.lookup_insert _, rfl, rfl⟩

/- A failed `PutObject` is kept if MinIO is as it was. -/
theorem storedWhole_iff_of_failed
    {sent : Bytes}
    {applied : Bool}
    {text : Bytes}
    (hMinio :
      s'.store.minio =
        (Fault.error applied text).apply s.store.minio
          (s.store.minio.insert filename
            (putInput filename header sent)))
    (hItems : s'.store.cache.items = s.store.cache.items) :
    StoredWhole s s' filename (some sent)
        (uploadFailed text) ↔
      KeepsUpload s filename header (some sent)
        (some (.error applied text)) := by
  constructor
  · intro h sent' hSent
    cases hSent
    rcases h with ⟨hStatus, _⟩ | ⟨_, hSame, _⟩
    · cases hStatus
    · cases applied with
      | false => exact Or.inl rfl
      | true =>
          have hNow := hSame filename
          rw [hMinio] at hNow
          exact
            Or.inr (hNow.symm.trans (AList.lookup_insert _))
  · intro h
    refine
      Or.inr ⟨by simp [uploadFailed, httpError], ?_, hItems⟩
    intro key
    rw [hMinio]
    rcases h sent rfl with rfl | hHeld
    · rfl
    · cases applied with
      | false => rfl
      | true =>
          by_cases hEq : key = filename
          · subst hEq
            exact (AList.lookup_insert _).trans hHeld.symm
          · exact AList.lookup_insert_ne hEq

/- What MinIO and the cache have is what was sent, or cut. -/
theorem storedWhole_iff_of_stored
    {sent contentType : Bytes}
    {size : Int}
    {asset : CachedAsset}
    (hReady : s'.handler.ready = true)
    (hKey : filename ≠ [])
    (hMinio :
      s'.store.minio.lookup filename =
        some (putInput filename header sent))
    (hCache :
      s'.store.cache.items.lookup filename = some asset)
    (hData :
      asset.data = (putInput filename header sent).data) :
    StoredWhole s s' filename (some sent)
        (uploaded filename size contentType) ↔
      KeepsUpload s filename header (some sent)
        (some .none) := by
  constructor
  · intro h sent' hSent
    cases hSent
    rcases h with ⟨_, hWhole⟩ | ⟨hStatus, _⟩
    · rcases hWhole with ⟨_, obj, _, hSent, hLookup, hObj, _⟩
      cases hSent
      rw [hMinio] at hLookup
      cases hLookup
      exact (List.take_eq_self_iff _).mp hObj
    · exact absurd rfl hStatus
  · intro h
    have hObj : (putInput filename header sent).data = sent :=
      List.take_of_length_le (h sent rfl)
    rw [hObj] at hData
    refine
      Or.inl
        ⟨rfl, sent, _, _, rfl, hMinio, hObj, hCache, hData,
          ?_⟩
    rw [← hData]
    exact servesNext_of_cached hReady hKey hCache

end

/-
  An upload that runs alone, from any state, is stored whole
  or rejected without effect exactly if its `PutObject` is
  not called, succeeds on a body within the limit, or fails
  without a change to MinIO.
-/
theorem upload_stored_whole_iff
    (s s' : AssetSystem)
    (id : Nat)
    (filename : Key)
    (header : Bytes)
    (body : Option Bytes)
    (actions : List AssetAction)
    (put : Option Fault)
    (reply : Reply)
    (hRun :
      UploadRun s id filename header body actions s' put
        reply) :
    StoredWhole s s' filename body reply ↔
      KeepsUpload s filename header body put := by
  rcases uploadRun_cases hRun with hRefused | hGoes
  · rcases hRefused with ⟨hStatus, rfl, hMinio, hItems⟩
    have hSame :
        StoredWhole s s' filename body reply := by
      refine Or.inr ⟨by omega, ?_, hItems⟩
      intro key
      rw [hMinio]
    exact ⟨fun _ => trivial, fun _ => hSame⟩
  · rcases hGoes with
      ⟨sent, rfl, hReady, hKey, hHandler, hStage⟩
    cases hStage with
    | failed hMinio hItems =>
        exact storedWhole_iff_of_failed hMinio hItems
    | stored hMinio hCache hData =>
        exact
          storedWhole_iff_of_stored (hHandler ▸ hReady) hKey
            hMinio hCache hData

/- A handler without assets. -/
def noAssets : AssetSystem :=
  AssetSystem.new bothClients ∅ ∅ 10 0

/- An upload of two bytes. -/
theorem upload_stored_whole_small :
    ∃ s' reply,
      UploadRun noAssets 0 [1] [9] (some [7, 8])
          [.proceed 0, .proceed 0, .proceed 0, .proceed 0,
            .proceed 0] s' (some .none) reply ∧
        StoredWhole noAssets s' [1] (some [7, 8]) reply := by
  have hRun :
      UploadRun noAssets 0 [1] [9] (some [7, 8])
        [.proceed 0, .proceed 0, .proceed 0, .proceed 0,
          .proceed 0] _ (some .none) _ :=
    ⟨Machine.exec_get rfl,
      by simp [AssetAction.Only, AssetAction.proceed], rfl⟩
  refine ⟨_, _, hRun, ?_⟩
  exact
    (upload_stored_whole_iff noAssets _ 0 [1] [9]
      (some [7, 8]) _ (some .none) _ hRun).mpr
      (by intro sent hSent; cases hSent; decide)

/- A body of one byte more than the limit. -/
def longBody : Bytes :=
  List.replicate (maxUpload + 1) 0

/- Once its outcome is known, `put` stays as it is. -/
theorem outcome_kept
    {u u' : AssetSystem × Option Fault}
    {fault : Fault}
    {actions : List AssetAction}
    (hExec :
      (recordedMachine firstOutcome).exec u actions = some u')
    (hPut : u.2 = some fault) :
    u'.2 = some fault := by
  refine
    Machine.exec_invariant
      (I := fun u : AssetSystem × Option Fault =>
        u.2 = some fault) ?_ hExec hPut
  intro v a v' hInv hStep
  rw [(Machine.withHistory_step.mp hStep).2]
  cases a with
  | call id request => exact hInv
  | tick elapsed => exact hInv
  | run id outcome order => simp [firstOutcome, hInv]

/- Every body can be uploaded to the empty handler. -/
theorem exists_uploadRun
    (sent : Bytes) :
    ∃ actions s' reply,
      UploadRun noAssets 0 [1] [9] (some sent) actions s'
        (some .none) reply := by
  let arrived : AssetSystem :=
    { noAssets with
      calls :=
        noAssets.calls.insert 0
          (.upload [1] [9] (sent.take maxUpload) .putObject) }
  have hArrive :
      noAssets.step (.call 0 (.upload [1] [9] (some sent))) =
        some arrived :=
    rfl
  have hKeys : arrived.KeysChecked :=
    keysChecked_step (keysChecked_new _ _ _ _ _) hArrive
  have hReply : arrived.WillReply 0 :=
    willReply_of_call hKeys (AList.lookup_insert _)
  have hOwn : Runs 0 (.proceed 0) := ⟨.none, .stored, rfl⟩
  rcases Machine.LeadsTo.exists_run hOwn hReply with
    ⟨n, t, hExec, reply, hDone⟩
  cases n with
  | zero =>
      have hSame : arrived = t := Option.some.inj hExec
      subst hSame
      cases hDone
  | succ n =>
      rcases Machine.exec_cons.mp hExec with
        ⟨first, hFirst, hRest⟩
      rcases @Machine.exec_withHistory _ _ _ _ firstOutcome
          _ _ _ (some Fault.none) hRest with ⟨put, hRun⟩
      have hPut : put = some .none := outcome_kept hRun rfl
      subst hPut
      refine
        ⟨.proceed 0 :: List.replicate n (.proceed 0), t,
          reply, ?_, ?_, hDone⟩
      · exact
          Machine.exec_cons.mpr
            ⟨(arrived, none),
              Machine.withHistory_step.mpr ⟨hArrive, rfl⟩,
              Machine.exec_cons.mpr
                ⟨(first, some .none),
                  Machine.withHistory_step.mpr ⟨hFirst, rfl⟩,
                  hRun⟩⟩
      · intro a hA
        rcases List.mem_cons.mp hA with rfl | hTail
        · rfl
        · rw [List.eq_of_mem_replicate hTail]
          rfl

/-
  An upload of more than the limit is acknowledged, and cut
  off.
-/
theorem upload_cut_off :
    ¬ ∀ body actions s' put reply,
      UploadRun noAssets 0 [1] [9] body actions s' put
          reply →
        StoredWhole noAssets s' [1] body reply := by
  intro h
  rcases exists_uploadRun longBody with
    ⟨actions, s', reply, hRun⟩
  have hWhole := h _ _ _ _ _ hRun
  rcases uploadRun_cases hRun with hRefused | hGoes
  · cases hRefused.2.1
  · rcases hGoes with ⟨sent, hSent, _, _, _, hStage⟩
    cases hSent
    cases hStage with
    | stored hMinio _ _ =>
        rcases hWhole with ⟨_, hWhole⟩ | ⟨hStatus, _⟩
        · rcases hWhole with
            ⟨_, obj, _, hSent, hLookup, hObj, _⟩
          cases hSent
          rw [hMinio] at hLookup
          cases hLookup
          have hShort := (List.take_eq_self_iff _).mp hObj
          rw [longBody, List.length_replicate] at hShort
          omega
        · exact absurd rfl hStatus

end CacheServer
