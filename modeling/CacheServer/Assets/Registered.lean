import CacheServer.Assets.Deletes

/-
  What an acknowledged upload leaves behind.

  Requests come one at a time, and a backend call that fails
  is not applied. An upload stores the object, then the
  metadata, then the index entry, and is acknowledged once
  the object is stored. The three stay in step if the two
  Redis commands of each upload are applied, or what they
  would store is there from before; deletes likewise.

  Key definitions include:
    * `CacheServer.AssetStore.Registered`
    * `CacheServer.RegistryHolds`
    * `CacheServer.UploadsRegister`
    * `CacheServer.RegistryPhase`

  Key theorems include:
    * `CacheServer.inStep_runUpload`
    * `CacheServer.inStep_runDelete`
    * `CacheServer.registryPhase_run`
    * `CacheServer.acknowledged_upload_registered`
-/

------------------------------------------------------------
-- Acknowledged Uploads And Deletes
------------------------------------------------------------

namespace CacheServer

/- What the last acknowledged request on a key did. -/
inductive LastAnswer
| uploaded (contentType : Bytes) (size : Int)
| deleted
deriving DecidableEq

abbrev Registry :=
  Table Key LastAnswer

/-
  The answer of a request that has become `next`. A request
  that fails changes nothing, and what was answered before
  it stands.
-/
def Registry.answer
    (registry : Registry) :
    AssetCall → AssetCall → Registry
| .upload key contentType body _, .done reply =>
    if reply.status = 201 then
      registry.insert key (.uploaded contentType body.length)
    else
      registry
| .deleteAsset key _, .done reply =>
    if reply.status = 200 then
      registry.insert key .deleted
    else
      registry
| _, _ => registry

def recordAnswer
    (s : AssetSystem) :
    AssetAction → Registry → Registry
| .run id fault order, registry =>
    match s.calls.lookup id with
    | none => registry
    | some call =>
        match call.run s.store fault order with
        | none => registry
        | some (_, next) => registry.answer call next
| _, registry => registry

/- The fields of the metadata that describe the object. -/
def describing
    (contentType : Bytes)
    (size : Int) :
    List (Bytes × Bytes) :=
  [(bytes "content_type", contentType),
    (bytes "size", decimal size)]

namespace AssetStore

/- The object is in MinIO. -/
def Stored
    (s : AssetStore)
    (key : Key)
    (contentType : Bytes)
    (size : Int) :
    Prop :=
  ∃ obj,
    s.minio.lookup key = some obj ∧
      obj.contentType = contentType ∧
        (obj.data.length : Int) = size

def Described
    (s : AssetStore)
    (key : Key)
    (contentType : Bytes)
    (size : Int) :
    Prop :=
  s.redis.HasFields (metaKey key) (describing contentType size)

def Listed
    (s : AssetStore)
    (key : Key) :
    Prop :=
  s.redis.HasMember indexKey key

/- Object, metadata and index have the asset. -/
structure Registered
    (s : AssetStore)
    (key : Key)
    (contentType : Bytes)
    (size : Int) :
    Prop where
  object : s.Stored key contentType size
  metadata : s.Described key contentType size
  index : s.Listed key

/- Object, metadata and index are in step with the answer. -/
def InStep
    (s : AssetStore)
    (key : Key) :
    LastAnswer → Prop
| .uploaded contentType size => s.Registered key contentType size
| .deleted => ∀ part, part ≠ .remove → s.Missing key part

end AssetStore

/-
  Between requests the three stores are in step with the
  answers, and a read that succeeds shows what was uploaded.
-/
structure RegistryHolds
    (s : AssetSystem × Registry)
    (a : AssetAction) :
    Prop where
  inStep :
    s.1.Quiescent →
      ∀ key last,
        s.2.lookup key = some last → s.1.store.InStep key last
  getMeta :
    ∀ id order key reply contentType size,
      a = .run id .none order →
        s.1.reply? a = some (.getMeta key, reply) →
          s.2.lookup key = some (.uploaded contentType size) →
            reply.status = 200 ∧
              ∃ hash,
                reply = metaFound key hash ∧
                  hashField hash "content_type" =
                      contentType ∧
                    hashField hash "size" = decimal size
  listAssets :
    ∀ id order key reply contentType size,
      a = .run id .none order →
        s.1.reply? a = some (.listAssets, reply) →
          s.2.lookup key = some (.uploaded contentType size) →
            ∃ members,
              reply = listed members ∧ members.count key = 1

/-
  The Redis commands of an upload are applied to keys that
  take them, or find in place what they would store.
-/
def UploadsRegister
    (s : AssetSystem) :
    AssetAction → Prop
| .run id fault _ =>
    match s.calls.lookup id with
    | some (.upload key contentType _ (.hset size)) =>
        (fault = .none ∧
          s.store.redis.TakesFields s.store.clock
            (metaKey key)) ∨
          s.store.Described key contentType size
    | some (.upload key _ _ (.sadd _)) =>
        (fault = .none ∧
          s.store.redis.TakesMember s.store.clock indexKey) ∨
          s.store.Listed key
    | _ => True
| _ => True

instance
    (s : AssetSystem)
    (a : AssetAction) :
    Decidable (UploadsRegister s a) :=
  match a with
  | .call _ _ => isTrue trivial
  | .run id fault _ =>
      match hCall : s.calls.lookup id with
      | some (.upload key contentType _ (.hset size)) =>
          decidable_of_iff
            ((fault = .none ∧
              s.store.redis.TakesFields s.store.clock
                (metaKey key)) ∨
              s.store.redis.HasFields (metaKey key)
                (describing contentType size))
            (by
              simp [UploadsRegister, hCall,
                AssetStore.Described])
      | some (.upload key _ _ (.sadd _)) =>
          decidable_of_iff
            ((fault = .none ∧
              s.store.redis.TakesMember s.store.clock
                indexKey) ∨
              s.store.redis.HasMember indexKey key)
            (by
              simp [UploadsRegister, hCall, AssetStore.Listed])
      | some (.upload _ _ _ .putObject) =>
          isTrue (by simp [UploadsRegister, hCall])
      | some (.upload _ _ _ (.stamp _)) =>
          isTrue (by simp [UploadsRegister, hCall])
      | some (.upload _ _ _ (.fill _ _)) =>
          isTrue (by simp [UploadsRegister, hCall])
      | some (.serveAsset _ _) =>
          isTrue (by simp [UploadsRegister, hCall])
      | some (.deleteAsset _ _) =>
          isTrue (by simp [UploadsRegister, hCall])
      | some (.getMeta _) =>
          isTrue (by simp [UploadsRegister, hCall])
      | some .listAssets =>
          isTrue (by simp [UploadsRegister, hCall])
      | some (.done _) =>
          isTrue (by simp [UploadsRegister, hCall])
      | none => isTrue (by simp [UploadsRegister, hCall])
  | .tick _ => isTrue trivial

end CacheServer

------------------------------------------------------------
-- What A Request Leaves Of The Other Assets
------------------------------------------------------------

namespace CacheServer

section

variable {s s' : AssetStore}
variable {key other : Key}
variable {contentType kind : Bytes}
variable {size : Int}
variable {fault : Fault}
variable {order : MapOrder}
variable {next : AssetCall}
variable {last : LastAnswer}

namespace AssetStore

theorem Stored.congr
    (h : s.Stored key contentType size)
    (hSame : s'.minio.lookup key = s.minio.lookup key) :
    s'.Stored key contentType size := by
  rcases h with ⟨obj, hFound, hObj⟩
  exact ⟨obj, hSame.trans hFound, hObj⟩

/- A command on the metadata of one asset. -/
theorem Registered.metadataOf
    {redis : Redis}
    (h : s.Registered key contentType size)
    (hNe : key ≠ other)
    (hOnly :
      ∀ k, k ≠ metaKey other →
        redis.lookup k = s.redis.lookup k) :
    Registered { s with redis := redis } key contentType
      size where
  object := h.object
  metadata := h.metadata.congr (hOnly _ (metaKey_ne hNe))
  index :=
    h.index.congr (hOnly _ (metaKey_ne_indexKey other).symm)

/- A command on the index. -/
theorem Registered.indexed
    {redis : Redis}
    (h : s.Registered key contentType size)
    (hOnly :
      ∀ k, k ≠ indexKey →
        redis.lookup k = s.redis.lookup k)
    (hMember : redis.HasMember indexKey key) :
    Registered { s with redis := redis } key contentType
      size where
  object := h.object
  metadata :=
    h.metadata.congr (hOnly _ (metaKey_ne_indexKey key))
  index := hMember

end AssetStore

open AssetStore

/- An upload keeps the other assets as they are. -/
theorem registered_runUpload
    {body : Bytes}
    {pc : UploadPc}
    (h : s.Registered other kind size)
    (hNe : other ≠ key)
    (hRun :
      AssetCall.runUpload s key contentType body fault order
          pc =
        some (s', next)) :
    s'.Registered other kind size := by
  cases AssetCall.runUpload_step hRun with
  | stored _ =>
      exact
        ⟨h.object.congr (AList.lookup_insert_ne hNe),
          h.metadata, h.index⟩
  | refused _ =>
      refine ⟨h.object.congr ?_, h.metadata, h.index⟩
      exact
        fault.apply_holds
          (P := fun minio : Table Key StoredObject =>
            minio.lookup other = s.minio.lookup other)
          rfl (AList.lookup_insert_ne hNe)
  | hset stored =>
      apply h.metadataOf hNe
      intro k hK
      exact
        Redis.apply_holds
          (P := fun r => r.lookup k = s.redis.lookup k)
          fault rfl
          (fun _ hSet => Redis.hset_lookup_ne hSet hK)
  | sadd stored =>
      apply h.indexed
      · intro k hK
        exact
          Redis.apply_holds
            (P := fun r => r.lookup k = s.redis.lookup k)
            fault rfl
            (fun _ hAdd => Redis.sadd_lookup_ne hAdd hK)
      · exact
          Redis.apply_holds
            (P := fun r => r.HasMember indexKey other)
            fault h.index (fun _ hAdd => h.index.sadd hAdd)
  | stamped _ => exact h
  | filled _ => exact ⟨h.object, h.metadata, h.index⟩

/- A delete keeps the other assets as they are. -/
theorem registered_runDelete
    (pc : DeletePc)
    (h : s.Registered other kind size)
    (hNe : other ≠ key) :
    (AssetCall.runDelete s key fault pc).1.Registered other
      kind size := by
  cases pc with
  | removeObject =>
      refine ⟨h.object.congr ?_, h.metadata, h.index⟩
      exact
        fault.apply_holds
          (P := fun minio : Table Key StoredObject =>
            minio.lookup other = s.minio.lookup other)
          rfl (AList.lookup_erase_ne hNe)
  | del =>
      apply h.metadataOf hNe
      intro k hK
      exact
        fault.apply_holds
          (P := fun r : Redis =>
            r.lookup k = s.redis.lookup k)
          rfl (Redis.del_lookup_ne _ hK)
  | srem =>
      apply h.indexed
      · intro k hK
        exact
          Redis.apply_holds
            (P := fun r => r.lookup k = s.redis.lookup k)
            fault rfl
            (fun _ hRem => Redis.srem_lookup_ne hRem hK)
      · exact
          Redis.apply_holds
            (P := fun r => r.HasMember indexKey other)
            fault h.index (fun _ hRem => h.index.srem hNe hRem)
  | remove => exact ⟨h.object, h.metadata, h.index⟩

theorem inStep_runUpload
    {body : Bytes}
    {pc : UploadPc}
    (h : s.InStep other last)
    (hNe : other ≠ key)
    (hRun :
      AssetCall.runUpload s key contentType body fault order
          pc =
        some (s', next)) :
    s'.InStep other last := by
  cases last with
  | uploaded kind size => exact registered_runUpload h hNe hRun
  | deleted =>
      intro part hPart
      exact missing_runUpload (h part hPart) hNe hRun

theorem inStep_runDelete
    (pc : DeletePc)
    (h : s.InStep other last)
    (hNe : other ≠ key) :
    (AssetCall.runDelete s key fault pc).1.InStep other
      last := by
  cases last with
  | uploaded kind size => exact registered_runDelete pc h hNe
  | deleted =>
      intro part hPart
      exact missing_runDelete pc (h part hPart)

/- The memory cache and the time have no part in this. -/
theorem inStep_congr
    {clock : Int}
    {cache : AssetCache}
    (h : s.InStep key last)
    (hLe : s.clock ≤ clock) :
    InStep { s with clock := clock, cache := cache } key
      last := by
  cases last with
  | uploaded kind size =>
      exact ⟨h.object, h.metadata, h.index⟩
  | deleted =>
      intro part hPart
      have hLater := (h part hPart).tick hLe
      cases part with
      | remove => exact absurd rfl hPart
      | _ => exact hLater

end

end CacheServer

------------------------------------------------------------
-- The Phases Of A Request
------------------------------------------------------------

namespace CacheServer

open AssetStore

def AllInStep
    (s : AssetStore)
    (registry : Registry) :
    Prop :=
  ∀ key last,
    registry.lookup key = some last → s.InStep key last

/- All assets but the one that is being changed. -/
def OthersInStep
    (s : AssetStore)
    (registry : Registry)
    (key : Key) :
    Prop :=
  ∀ other last,
    other ≠ key →
      registry.lookup other = some last → s.InStep other last

/- What an upload has stored before this step. -/
def UploadProgress
    (s : AssetStore)
    (key : Key)
    (contentType : Bytes)
    (body : Bytes) :
    UploadPc → Prop
| .putObject => True
| .hset size =>
    size = body.length ∧ s.Stored key contentType size
| .sadd size =>
    size = body.length ∧ s.Stored key contentType size ∧
      s.Described key contentType size
| .stamp size =>
    size = body.length ∧ s.Registered key contentType size
| .fill size _ =>
    size = body.length ∧ s.Registered key contentType size

/- What holds at rest, and in the middle of a request. -/
def RegistryPhase :
    Option AssetCall → AssetStore → Registry → Prop
| some (.upload _ _ _ .putObject), s, registry =>
    AllInStep s registry
| some (.upload key contentType body pc), s, registry =>
    OthersInStep s registry key ∧
      UploadProgress s key contentType body pc
| some (.deleteAsset key pc), s, registry =>
    OthersInStep s registry key ∧
      ∀ part ∈ pc.passed, s.Missing key part
| _, s, registry => AllInStep s registry

section

variable {s s' : AssetStore}
variable {registry : Registry}
variable {key : Key}
variable {fault : Fault}
variable {order : MapOrder}
variable {next : AssetCall}

theorem AllInStep.others
    (h : AllInStep s registry)
    (key : Key) :
    OthersInStep s registry key :=
  fun other last _ hLast => h other last hLast

/- The answer puts the last asset in step. -/
theorem OthersInStep.insert
    {last : LastAnswer}
    (h : OthersInStep s registry key)
    (hLast : s.InStep key last) :
    AllInStep s (registry.insert key last) := by
  intro other found hLookup
  rcases Table.lookup_insert_cases hLookup with
    ⟨rfl, rfl⟩ | ⟨hNe, hOld⟩
  · exact hLast
  · exact h other found hNe hOld

theorem AllInStep.congr
    {clock : Int}
    {cache : AssetCache}
    (h : AllInStep s registry)
    (hLe : s.clock ≤ clock) :
    AllInStep { s with clock := clock, cache := cache }
      registry :=
  fun key last hLast => inStep_congr (h key last hLast) hLe

theorem OthersInStep.congr
    {clock : Int}
    {cache : AssetCache}
    (h : OthersInStep s registry key)
    (hLe : s.clock ≤ clock) :
    OthersInStep { s with clock := clock, cache := cache }
      registry key :=
  fun other last hNe hLast =>
    inStep_congr (h other last hNe hLast) hLe

/- A request that is accepted at rest begins its phase. -/
theorem registryPhase_accept
    (h : BinaryHandler)
    (request : AssetRequest)
    (hRest : AllInStep s registry) :
    RegistryPhase (h.accept request).inFlight s registry := by
  have hCases := h.accept_cases request
  generalize h.accept request = call at hCases ⊢
  cases hCases with
  | upload _ _ => exact hRest
  | serveAsset _ _ => exact hRest
  | deleteAsset _ _ =>
      exact
        ⟨hRest.others _, fun part hPart => by cases hPart⟩
  | getMeta _ _ => exact hRest
  | listAssets _ => exact hRest
  | refused _ => exact hRest

/- A description is applied, or was there before. -/
theorem described_of_hset
    {contentType : Bytes}
    {size : Int}
    (h :
      (fault = .none ∧
        s.redis.TakesFields s.clock (metaKey key)) ∨
        s.Described key contentType size)
    (hFault : fault = .none ∨ fault.applied = false) :
    (fault.apply s.redis
      ((s.redis.hset s.clock (metaKey key)
        (metaFields key contentType size
          s.clock)).getD s.redis)).HasFields (metaKey key)
      (describing contentType size) := by
  have hApplied :
      s.redis.TakesFields s.clock (metaKey key) →
        ((s.redis.hset s.clock (metaKey key)
          (metaFields key contentType size
            s.clock)).getD s.redis).HasFields (metaKey key)
          (describing contentType size) := by
    intro hTakes
    apply Redis.hset_hasFields hTakes
    · simp only [metaFields, List.map_cons, List.map_nil]
      decide
    · intro f hMem
      simp only [describing, List.mem_cons, List.not_mem_nil,
        or_false] at hMem
      rcases hMem with rfl | rfl
      · simp [metaFields]
      · simp [metaFields]
  rcases h with ⟨rfl, hTakes⟩ | hThere
  · exact hApplied hTakes
  · rcases hFault with rfl | hFalse
    · rcases hThere with ⟨hash, hHash, hFields⟩
      refine hApplied (Or.inr ?_)
      rw [hHash]
      rfl
    · rw [fault.apply_eq, hFalse]
      exact hThere

theorem listed_of_sadd
    (h :
      (fault = .none ∧
        s.redis.TakesMember s.clock indexKey) ∨
        s.Listed key)
    (hFault : fault = .none ∨ fault.applied = false) :
    (fault.apply s.redis
      ((s.redis.sadd s.clock indexKey key).getD
        s.redis)).HasMember indexKey key := by
  rcases h with ⟨rfl, hTakes⟩ | hThere
  · exact Redis.sadd_hasMember hTakes
  · rcases hFault with rfl | hFalse
    · rcases hThere with ⟨members, hMembers, hMem⟩
      refine Redis.sadd_hasMember (Or.inr ?_)
      rw [hMembers]
      rfl
    · rw [fault.apply_eq, hFalse]
      exact hThere

/- An upload stores its asset step by step. -/
theorem registryPhase_runUpload
    {contentType body : Bytes}
    {pc : UploadPc}
    (h :
      RegistryPhase (some (.upload key contentType body pc)) s
        registry)
    (hFault : fault = .none ∨ fault.applied = false)
    (hHset :
      ∀ size,
        pc = .hset size →
          (fault = .none ∧
            s.redis.TakesFields s.clock (metaKey key)) ∨
            s.Described key contentType size)
    (hSadd :
      ∀ size,
        pc = .sadd size →
          (fault = .none ∧
            s.redis.TakesMember s.clock indexKey) ∨
            s.Listed key)
    (hRun :
      AssetCall.runUpload s key contentType body fault order
          pc =
        some (s', next)) :
    RegistryPhase next.inFlight s'
      (registry.answer (.upload key contentType body pc)
        next) := by
  have hOld : OthersInStep s registry key := by
    cases pc with
    | putObject => exact AllInStep.others h key
    | _ => exact h.1
  have hOther : OthersInStep s' registry key :=
    fun other last hNe hLast =>
      inStep_runUpload (hOld other last hNe hLast) hNe hRun
  cases AssetCall.runUpload_step hRun with
  | stored _ =>
      exact
        ⟨hOther, rfl, _, AList.lookup_insert _, rfl, rfl⟩
  | refused hError =>
      -- the reply is 502 and MinIO is as it was
      rcases hFault with rfl | hFalse
      · cases hError
      · have hSame :
            fault.apply s.minio
                (s.minio.insert key
                  { data := body
                    contentType := contentType }) =
              s.minio := by
          rw [fault.apply_eq, hFalse]
          rfl
        rw [hSame]
        exact h
  | hset size =>
      rcases h.2 with ⟨hSize, hStored⟩
      exact
        ⟨hOther, hSize, hStored,
          described_of_hset (hHset size rfl) hFault⟩
  | sadd size =>
      rcases h.2 with ⟨hSize, hStored, hDescribed⟩
      refine ⟨hOther, hSize, hStored, ?_, ?_⟩
      · apply hDescribed.congr
        exact
          Redis.apply_holds
            (P := fun r =>
              r.lookup (metaKey key) =
                s.redis.lookup (metaKey key))
            fault rfl
            (fun _ hAdd =>
              Redis.sadd_lookup_ne hAdd
                (metaKey_ne_indexKey key))
      · exact listed_of_sadd (hSadd size rfl) hFault
  | stamped size => exact ⟨hOther, h.2⟩
  | filled _ =>
      rcases h.2 with ⟨rfl, hRegistered⟩
      apply hOther.insert
      exact
        ⟨hRegistered.object, hRegistered.metadata,
          hRegistered.index⟩

/- A delete removes its asset step by step. -/
theorem registryPhase_runDelete
    {pc : DeletePc}
    (h : RegistryPhase (some (.deleteAsset key pc)) s registry)
    (hApplied :
      pc = .remove ∨ fault = .none ∨ s.Missing key pc) :
    RegistryPhase
      (AssetCall.runDelete s key fault pc).2.inFlight
      (AssetCall.runDelete s key fault pc).1
      (registry.answer (.deleteAsset key pc)
        (AssetCall.runDelete s key fault pc).2) := by
  rcases h with ⟨hOthers, hPassed⟩
  have hKept :
      OthersInStep (AssetCall.runDelete s key fault pc).1
        registry key :=
    fun other last hNe hLast =>
      inStep_runDelete pc (hOthers other last hNe hLast) hNe
  have hNow :=
    @missing_of_passed s key fault pc hPassed hApplied
  cases pc with
  | removeObject =>
      refine ⟨hKept, ?_⟩
      intro part hPart
      apply hNow
      simpa [DeletePc.passed] using hPart
  | del =>
      refine ⟨hKept, ?_⟩
      intro part hPart
      apply hNow
      simpa [DeletePc.passed] using hPart
  | srem =>
      refine ⟨hKept, ?_⟩
      intro part hPart
      apply hNow
      simpa [DeletePc.passed, or_assoc] using hPart
  | remove =>
      apply hKept.insert
      intro part hPart
      apply hNow
      cases part with
      | remove => exact Or.inr rfl
      | _ => exact Or.inl (by decide)

/- A serve changes the memory cache only. -/
theorem registryPhase_runServe
    {pc : ServePc}
    (h : AllInStep s registry)
    (hRun :
      AssetCall.runServe s key fault order pc =
        some (s', next)) :
    RegistryPhase next.inFlight s' registry := by
  cases AssetCall.runServe_step hRun with
  | hit _ => exact h.congr (le_refl s.clock)
  | miss _ => exact h.congr (le_refl s.clock)
  | fetched _ _ => exact h
  | failed _ => exact h
  | stamped _ => exact h
  | filled _ => exact h.congr (le_refl s.clock)

/- A step of the request in flight keeps its phase. -/
theorem registryPhase_run
    {call : AssetCall}
    (h : RegistryPhase (some call) s registry)
    (hFault : fault = .none ∨ fault.applied = false)
    (hHset :
      ∀ key contentType body size,
        call = .upload key contentType body (.hset size) →
          (fault = .none ∧
            s.redis.TakesFields s.clock (metaKey key)) ∨
            s.Described key contentType size)
    (hSadd :
      ∀ key contentType body size,
        call = .upload key contentType body (.sadd size) →
          (fault = .none ∧
            s.redis.TakesMember s.clock indexKey) ∨
            s.Listed key)
    (hApplied :
      ∀ key pc,
        call = .deleteAsset key pc →
          pc = .remove ∨ fault = .none ∨ s.Missing key pc)
    (hRun : call.run s fault order = some (s', next)) :
    RegistryPhase next.inFlight s'
      (registry.answer call next) := by
  cases call with
  | upload key contentType body pc =>
      refine registryPhase_runUpload h hFault ?_ ?_ hRun
      · intro size hPc
        exact hHset key contentType body size (by rw [hPc])
      · intro size hPc
        exact hSadd key contentType body size (by rw [hPc])
  | serveAsset key pc => exact registryPhase_runServe h hRun
  | deleteAsset key pc =>
      have hEq := Option.some.inj hRun
      have hPhase :=
        registryPhase_runDelete h (hApplied key pc rfl)
      rw [hEq] at hPhase
      exact hPhase
  | getMeta key =>
      cases hRun
      exact h
  | listAssets =>
      cases hRun
      exact h
  | done reply => cases hRun

/- Time passing keeps the phase. -/
theorem registryPhase_tick
    {phase : Option AssetCall}
    {clock : Int}
    (h : RegistryPhase phase s registry)
    (hLe : s.clock ≤ clock) :
    RegistryPhase phase { s with clock := clock }
      registry := by
  cases phase with
  | none => exact AllInStep.congr h hLe
  | some call =>
      cases call with
      | upload key contentType body pc =>
          cases pc with
          | putObject => exact AllInStep.congr h hLe
          | hset size =>
              exact ⟨OthersInStep.congr h.1 hLe, h.2⟩
          | sadd size =>
              exact ⟨OthersInStep.congr h.1 hLe, h.2⟩
          | stamp size =>
              rcases h.2 with ⟨hSize, hObject, hHash, hIndex⟩
              exact
                ⟨OthersInStep.congr h.1 hLe, hSize, hObject,
                  hHash, hIndex⟩
          | fill size asset =>
              rcases h.2 with ⟨hSize, hObject, hHash, hIndex⟩
              exact
                ⟨OthersInStep.congr h.1 hLe, hSize, hObject,
                  hHash, hIndex⟩
      | serveAsset key pc => exact AllInStep.congr h hLe
      | deleteAsset key pc =>
          refine ⟨OthersInStep.congr h.1 hLe, ?_⟩
          intro part hPart
          exact (h.2 part hPart).tick hLe
      | getMeta key => exact AllInStep.congr h hLe
      | listAssets => exact AllInStep.congr h hLe
      | done reply => exact AllInStep.congr h hLe

end

end CacheServer

------------------------------------------------------------
-- What Clients Read
------------------------------------------------------------

namespace CacheServer

open AssetStore

section

variable {s : AssetStore}
variable {key : Key}
variable {contentType : Bytes}
variable {size : Int}

theorem runGetMeta_of_described
    (h : s.Described key contentType size) :
    ∃ hash,
      AssetCall.runGetMeta s key .none = metaFound key hash ∧
        hashField hash "content_type" = contentType ∧
          hashField hash "size" = decimal size := by
  rcases h.hgetall s.clock with ⟨hash, hHash, hFields⟩
  have hType :
      hash.lookup (bytes "content_type") = some contentType :=
    hFields (bytes "content_type", contentType)
      (by simp [describing])
  have hSize :
      hash.lookup (bytes "size") = some (decimal size) :=
    hFields (bytes "size", decimal size) (by simp [describing])
  have hLen : hash.len ≠ 0 := by
    intro hZero
    have hEntry := AList.mem_lookup_iff.mp hType
    rw [List.length_eq_zero_iff.mp hZero] at hEntry
    cases hEntry
  refine ⟨hash, ?_, ?_, ?_⟩
  · simp [AssetCall.runGetMeta, hHash, hLen]
  · simp [hashField, hType]
  · simp [hashField, hSize]

theorem runListAssets_of_listed
    (h : s.Listed key) :
    ∃ members,
      AssetCall.runListAssets s .none = listed members ∧
        members.count key = 1 := by
  rcases h.smembers s.clock with ⟨members, hMembers, hOnce⟩
  exact
    ⟨members, by simp [AssetCall.runListAssets, hMembers],
      hOnce⟩

end

end CacheServer

------------------------------------------------------------
-- Steps Of A Serial Run
------------------------------------------------------------

namespace CacheServer

open AssetSystem

variable {s : AssetSystem × Registry}
variable {a : AssetAction}

/- A step that heeds the conditions keeps the phase. -/
theorem registryPhase_step
    {s' : AssetSystem × Registry}
    (hPhase : InPhase RegistryPhase s)
    (hTurn : InTurn s.1 a)
    (hUploads : UploadsRegister s.1 a)
    (hDeletes : DeletesApplied s.1 a)
    (h : (recordedMachine recordAnswer).step s a = some s') :
    InPhase RegistryPhase s' := by
  refine
    inPhase_step
      (P := fun s a =>
        InTurn s.1 a ∧ UploadsRegister s.1 a ∧
          DeletesApplied s.1 a)
      ?_ ?_ ?_ hPhase hTurn.1 ⟨hTurn, hUploads, hDeletes⟩ h
  · intro t id request hRest _
    exact registryPhase_accept _ request hRest
  · intro t id fault order call store next hMid hLookup hRun
      hOk
    rcases hOk with ⟨hTurn, hUploads, hDeletes⟩
    have hAnswer :
        recordAnswer t.1 (.run id fault order) t.2 =
          t.2.answer call next := by
      simp [recordAnswer, hLookup, hRun]
    rw [hAnswer]
    refine registryPhase_run hMid hTurn.2 ?_ ?_ ?_ hRun
    · intro key contentType body size hCall
      simpa [UploadsRegister, hLookup, hCall] using hUploads
    · intro key contentType body size hCall
      simpa [UploadsRegister, hLookup, hCall] using hUploads
    · intro key pc hCall
      simpa [DeletesApplied, hLookup, hCall] using hDeletes
  · intro t phase elapsed hMid
    exact registryPhase_tick hMid (by omega)

/- A read that succeeds ends a phase in which all is well. -/
theorem allInStep_of_read
    {id : Nat}
    {order : MapOrder}
    {endpoint : AssetEndpoint}
    {reply : Reply}
    (hPhase : InPhase RegistryPhase s)
    (hReply :
      s.1.reply? (.run id .none order) = some (endpoint, reply))
    (hRead :
      (∃ key, endpoint = .getMeta key) ∨
        endpoint = .listAssets) :
    AllInStep s.1.store s.2 ∧
      ((∃ key,
        endpoint = .getMeta key ∧
          reply = AssetCall.runGetMeta s.1.store key .none) ∨
        endpoint = .listAssets ∧
          reply = AssetCall.runListAssets s.1.store .none) := by
  rcases reply_of_inPhase hPhase hReply with
    hRefused | hLast
  · rcases hRefused with ⟨_, _, hEq, _⟩
    cases hEq
  · rcases hLast with
      ⟨_, _, _, call, store, hEq, _, hAsked, hRun, hMid⟩
    cases hEq
    cases call with
    | getMeta key =>
        cases hAsked
        cases hRun
        exact ⟨hMid, Or.inl ⟨key, rfl, rfl⟩⟩
    | listAssets =>
        cases hAsked
        cases hRun
        exact ⟨hMid, Or.inr ⟨rfl, rfl⟩⟩
    | done reply => cases hAsked
    | _ =>
        cases hAsked
        rcases hRead with ⟨_, hBad⟩ | hBad
        · cases hBad
        · cases hBad

/- In its phase, a request is answered as it should be. -/
theorem registryHolds_of_inPhase
    (hPhase : InPhase RegistryPhase s) :
    RegistryHolds s a where
  inStep := by
    intro hQuiet
    rcases hPhase with ⟨_, hRest⟩ | hBusy
    · exact hRest
    · rcases hBusy with ⟨id, call, hLookup, hNot, _⟩
      rw [finished_of_quiescent hQuiet hLookup] at hNot
      cases hNot
  getMeta := by
    intro id order key reply contentType size hRun hReply hLast
    subst hRun
    rcases allInStep_of_read hPhase hReply
      (Or.inl ⟨key, rfl⟩) with ⟨hAll, hRead⟩
    rcases hRead with ⟨_, hEq, rfl⟩ | ⟨hEq, _⟩
    · cases hEq
      have hStep := hAll key _ hLast
      rcases runGetMeta_of_described hStep.metadata with
        ⟨hash, hFound, hType, hSize⟩
      exact
        ⟨by rw [hFound]; rfl, hash, hFound, hType, hSize⟩
    · cases hEq
  listAssets := by
    intro id order key reply contentType size hRun hReply hLast
    subst hRun
    rcases allInStep_of_read hPhase hReply (Or.inr rfl) with
      ⟨hAll, hRead⟩
    rcases hRead with ⟨_, hEq, _⟩ | ⟨_, rfl⟩
    · cases hEq
    · exact runListAssets_of_listed (hAll key _ hLast).index

end CacheServer

------------------------------------------------------------
-- Uploads In Serial Runs
------------------------------------------------------------

namespace CacheServer

open AssetSystem

/-
  In every serial run in which the commands of uploads and
  deletes are applied where they have something to do, an
  acknowledged upload is registered; and every request gets
  its reply.
-/
theorem acknowledged_upload_registered
    (handler : BinaryHandler)
    (minio : Table Key StoredObject)
    (redis : Redis)
    (maxBytes : Int)
    (clock : Int)
    (actions : List AssetAction)
    (hTurn :
      (recordedMachine recordAnswer).Along
        (fun s a => InTurn s.1 a)
        (AssetSystem.new handler minio redis maxBytes clock,
          ∅)
        actions)
    (hUploads :
      (recordedMachine recordAnswer).Along
        (fun s a => UploadsRegister s.1 a)
        (AssetSystem.new handler minio redis maxBytes clock,
          ∅)
        actions)
    (hDeletes :
      (recordedMachine recordAnswer).Along
        (fun s a => DeletesApplied s.1 a)
        (AssetSystem.new handler minio redis maxBytes clock,
          ∅)
        actions) :
    (recordedMachine recordAnswer).Along RegistryHolds
        (AssetSystem.new handler minio redis maxBytes clock,
          ∅)
        actions ∧
      ∀ s id call,
        assetMachine.exec
              (AssetSystem.new handler minio redis maxBytes
                clock)
              actions =
            some s →
          s.calls.lookup id = some call → s.WillReply id := by
  have hRest :
      InPhase RegistryPhase
        (AssetSystem.new handler minio redis maxBytes clock,
          (∅ : Registry)) := by
    apply inPhase_new
    intro key last hLast
    cases hLast
  constructor
  · refine
      Machine.along_of_invariant
        (I := InPhase RegistryPhase)
        ?_ ?_ ((hTurn.and hUploads).and hDeletes) hRest
    · intro s a s' hInv hOk hStep
      exact
        registryPhase_step hInv hOk.1.1 hOk.1.2 hOk.2 hStep
    · intro s a hInv _
      exact registryHolds_of_inPhase hInv
  · intro s id call hRun hLookup
    exact willReply_of_run hRun hLookup

/-
  An upload whose object is refused, the upload again, once
  more with a Redis command that fails but finds its work
  done, the two reads, and a delete.
-/
theorem acknowledged_upload_registered_twice :
    (recordedMachine recordAnswer).Along RegistryHolds
        (AssetSystem.new bothClients ∅ ∅ 10 0, ∅)
        [.call 0 (.upload [1] [9] (some [8])),
          .run 0 (.error false []) .stored,
          .call 1 (.upload [1] [9] (some [8])), .proceed 1,
          .proceed 1, .proceed 1, .proceed 1, .proceed 1,
          .call 2 (.upload [1] [9] (some [7])), .proceed 2,
          .run 2 (.error false []) .stored, .proceed 2,
          .proceed 2, .proceed 2, .call 3 (.getMeta [1]),
          .proceed 3, .call 4 .listAssets, .proceed 4,
          .call 5 (.deleteAsset [1]), .proceed 5, .proceed 5,
          .proceed 5, .proceed 5] :=
  (acknowledged_upload_registered bothClients ∅ ∅ 10 0 _
    (by decide) (by decide) (by decide)).1

/-
  The metadata is refused, the upload is acknowledged, and
  there is nothing to be read about the asset.
-/
theorem acknowledged_upload_unknown :
    ¬ ∀ (handler : BinaryHandler)
        (minio : Table Key StoredObject) (redis : Redis)
        (maxBytes clock : Int) (actions : List AssetAction),
        (recordedMachine recordAnswer).Along
            (fun s a => InTurn s.1 a)
            (AssetSystem.new handler minio redis maxBytes
              clock, ∅)
            actions →
          (recordedMachine recordAnswer).Along RegistryHolds
            (AssetSystem.new handler minio redis maxBytes
              clock, ∅)
            actions := by
  intro h
  have hBad :=
    h bothClients ∅ ∅ 10 0
      ([.call 0 (.upload [1] [9] (some [8])), .proceed 0,
        .run 0 (.error false []) .stored, .proceed 0,
        .proceed 0, .proceed 0, .call 1 (.getMeta [1])] ++
          [.proceed 1])
      (by decide)
  rw [Machine.along_append (Machine.exec_get rfl)] at hBad
  have hStatus :=
    (hBad.2.1.getMeta 1 .stored [1] _ [9] 1 rfl rfl
      (by decide)).1
  revert hStatus
  decide

end CacheServer
