import CacheServer.Assets.SerialRequests

/-
  What an acknowledged delete leaves behind.

  Requests come one at a time, and a backend call that fails
  is not applied. A delete goes through the object, the
  metadata, the index and the memory cache, and replies that
  the asset is deleted whatever fails on the way. The asset
  stays deleted if each command of each delete is applied
  or has nothing to remove.

  Key definitions include:
    * `CacheServer.AssetStore.Missing`
    * `CacheServer.AssetStore.Gone`
    * `CacheServer.DeletesHold`
    * `CacheServer.DeletesApplied`
    * `CacheServer.DeletePhase`

  Key theorems include:
    * `CacheServer.missing_runUpload`
    * `CacheServer.missing_runDelete`
    * `CacheServer.missing_after_runDelete`
    * `CacheServer.deletePhase_run`
    * `CacheServer.acknowledged_delete_holds`
-/

------------------------------------------------------------
-- Acknowledged Deletes
------------------------------------------------------------

namespace CacheServer

/-
  The keys whose delete was acknowledged, and that have not
  been uploaded since.
-/
abbrev DeletedKeys :=
  List Key

def acknowledge
    (keys : DeletedKeys) :
    Option (AssetEndpoint × Reply) → DeletedKeys
| some (.deleteAsset key, reply) =>
    if reply.status = 200 then key :: keys else keys
| some (.upload key, reply) =>
    if reply.status = 201 then
      keys.filter (fun other => other ≠ key)
    else
      keys
| _ => keys

def recordDelete
    (s : AssetSystem)
    (a : AssetAction)
    (keys : DeletedKeys) :
    DeletedKeys :=
  acknowledge keys (s.reply? a)

namespace AssetStore

/- What this step of `deleteAsset` removes is not there. -/
def Missing
    (s : AssetStore)
    (key : Key) :
    DeletePc → Prop
| .removeObject => s.minio.lookup key = none
| .del => s.redis.NoHash s.clock (metaKey key)
| .srem => s.redis.NotMember s.clock indexKey key
| .remove => s.cache.items.lookup key = none

/- Nothing is left of the asset. -/
def Gone
    (s : AssetStore)
    (key : Key) :
    Prop :=
  ∀ pc, s.Missing key pc

end AssetStore

/-
  Deleted assets are not served, described or listed, and
  a delete that succeeds leaves nothing of its asset.
-/
structure DeletesHold
    (s : AssetSystem × DeletedKeys)
    (a : AssetAction) :
    Prop where
  serveAsset :
    ∀ key reply,
      s.1.reply? a = some (.serveAsset key, reply) →
        key ∈ s.2 → reply = notFound
  getMeta :
    ∀ key reply,
      s.1.reply? a = some (.getMeta key, reply) →
        key ∈ s.2 → reply = notFound
  listAssets :
    ∀ reply,
      s.1.reply? a = some (.listAssets, reply) →
        reply.status = 200 →
          ∃ members,
            s.1.store.redis.smembers s.1.store.clock
                indexKey =
              some members ∧
              reply = listed members ∧
                ∀ key ∈ s.2, key ∉ members
  deleteAsset :
    ∀ key reply s',
      s.1.reply? a = some (.deleteAsset key, reply) →
        reply.status = 200 →
          s.1.step a = some s' → s'.store.Gone key

/- Requests come one at a time; what fails is not applied. -/
def InTurn
    (s : AssetSystem)
    (a : AssetAction) :
    Prop :=
  s.Serial a ∧
    match a with
    | .run _ fault _ => fault = .none ∨ fault.applied = false
    | _ => True

/-
  A command of a delete succeeds, or there is nothing that
  it would remove. The cache is not a backend.
-/
def DeletesApplied
    (s : AssetSystem) :
    AssetAction → Prop
| .run id fault _ =>
    match s.calls.lookup id with
    | some (.deleteAsset key pc) =>
        pc = .remove ∨ fault = .none ∨ s.store.Missing key pc
    | _ => True
| _ => True

instance
    (s : AssetStore)
    (key : Key)
    (pc : DeletePc) :
    Decidable (s.Missing key pc) := by
  cases pc with
  | removeObject =>
      exact
        inferInstanceAs
          (Decidable (s.minio.lookup key = none))
  | del =>
      exact
        inferInstanceAs
          (Decidable
            (s.redis.NoHash s.clock (metaKey key)))
  | srem =>
      exact
        inferInstanceAs
          (Decidable
            (s.redis.NotMember s.clock indexKey key))
  | remove =>
      exact
        inferInstanceAs
          (Decidable (s.cache.items.lookup key = none))

instance
    (s : AssetSystem)
    (a : AssetAction) :
    Decidable (InTurn s a) :=
  match a with
  | .call id request =>
      inferInstanceAs
        (Decidable (s.Serial (.call id request) ∧ True))
  | .run id fault order =>
      inferInstanceAs
        (Decidable
          (s.Serial (.run id fault order) ∧
            (fault = .none ∨ fault.applied = false)))
  | .tick elapsed =>
      inferInstanceAs
        (Decidable (s.Serial (.tick elapsed) ∧ True))

instance
    (s : AssetSystem)
    (a : AssetAction) :
    Decidable (DeletesApplied s a) :=
  match a with
  | .call _ _ => isTrue trivial
  | .run id fault _ =>
      match hCall : s.calls.lookup id with
      | some (.deleteAsset key pc) =>
          decidable_of_iff
            (pc = .remove ∨ fault = .none ∨
              s.store.Missing key pc)
            (by simp [DeletesApplied, hCall])
      | some (.upload _ _ _ _) =>
          isTrue (by simp [DeletesApplied, hCall])
      | some (.serveAsset _ _) =>
          isTrue (by simp [DeletesApplied, hCall])
      | some (.getMeta _) =>
          isTrue (by simp [DeletesApplied, hCall])
      | some .listAssets =>
          isTrue (by simp [DeletesApplied, hCall])
      | some (.done _) =>
          isTrue (by simp [DeletesApplied, hCall])
      | none => isTrue (by simp [DeletesApplied, hCall])
  | .tick _ => isTrue trivial

end CacheServer

------------------------------------------------------------
-- What Is Missing Stays Missing
------------------------------------------------------------

namespace CacheServer

namespace AssetStore

variable {s : AssetStore}
variable {key : Key}
variable {pc : DeletePc}

/- A change of MinIO matters to the object only. -/
theorem Missing.minio
    {minio : Table Key StoredObject}
    (h : s.Missing key pc)
    (hNone :
      s.minio.lookup key = none → minio.lookup key = none) :
    Missing { s with minio := minio } key pc := by
  cases pc with
  | removeObject => exact hNone h
  | del => exact h
  | srem => exact h
  | remove => exact h

theorem Missing.redis
    {redis : Redis}
    (h : s.Missing key pc)
    (hHash :
      s.redis.NoHash s.clock (metaKey key) →
        redis.NoHash s.clock (metaKey key))
    (hMember :
      s.redis.NotMember s.clock indexKey key →
        redis.NotMember s.clock indexKey key) :
    Missing { s with redis := redis } key pc := by
  cases pc with
  | removeObject => exact h
  | del => exact hHash h
  | srem => exact hMember h
  | remove => exact h

theorem Missing.cache
    {cache : AssetCache}
    (h : s.Missing key pc)
    (hNone :
      s.cache.items.lookup key = none →
        cache.items.lookup key = none) :
    Missing { s with cache := cache } key pc := by
  cases pc with
  | removeObject => exact h
  | del => exact h
  | srem => exact h
  | remove => exact hNone h

/- Time brings nothing back. -/
theorem Missing.tick
    {clock : Int}
    (h : s.Missing key pc)
    (hLe : s.clock ≤ clock) :
    Missing { s with clock := clock } key pc := by
  cases pc with
  | removeObject => exact h
  | del => exact Redis.NoHash.of_le h hLe
  | srem => exact Redis.NotMember.of_le h hLe
  | remove => exact h

/- A lookup may count a hit, and keeps the entries. -/
theorem Missing.get
    (h : s.Missing key pc)
    (looked : Key) :
    Missing { s with cache := (s.cache.get looked).2 } key
      pc := by
  apply h.cache
  intro hNone
  rw [s.cache.get_items looked]
  exact hNone

/- Caching an asset brings back no other. -/
theorem Missing.set
    {other : Key}
    {order : MapOrder}
    {asset : CachedAsset}
    {cache : AssetCache}
    (h : s.Missing key pc)
    (hNe : key ≠ other)
    (hSet : s.cache.set order other asset = some cache) :
    Missing { s with cache := cache } key pc := by
  apply h.cache
  intro hNone
  rcases (AssetCache.set_lookup hSet).2 key hNe with
    hKeep | hGone
  · exact hKeep.trans hNone
  · exact hGone

/- A command on the metadata of one asset. -/
theorem Missing.metadata
    {redis : Redis}
    {other : Key}
    (h : s.Missing key pc)
    (hNe : key ≠ other)
    (hOnly :
      ∀ k, k ≠ metaKey other →
        redis.lookup k = s.redis.lookup k) :
    Missing { s with redis := redis } key pc := by
  apply h.redis
  · intro hHash
    exact hHash.congr (hOnly _ (metaKey_ne hNe))
  · intro hMember
    exact
      hMember.congr (hOnly _ (metaKey_ne_indexKey other).symm)

/- A command on the index. -/
theorem Missing.index
    {redis : Redis}
    (h : s.Missing key pc)
    (hOnly :
      ∀ k, k ≠ indexKey →
        redis.lookup k = s.redis.lookup k)
    (hMember :
      s.redis.NotMember s.clock indexKey key →
        redis.NotMember s.clock indexKey key) :
    Missing { s with redis := redis } key pc := by
  apply h.redis
  · intro hHash
    exact hHash.congr (hOnly _ (metaKey_ne_indexKey key))
  · exact hMember

end AssetStore

section

variable {s s' : AssetStore}
variable {key other : Key}
variable {fault : Fault}
variable {order : MapOrder}
variable {next : AssetCall}
variable {part : DeletePc}

/- An upload brings back no other asset. -/
theorem missing_runUpload
    {contentType body : Bytes}
    {pc : UploadPc}
    (h : s.Missing other part)
    (hNe : other ≠ key)
    (hRun :
      AssetCall.runUpload s key contentType body fault order
          pc =
        some (s', next)) :
    s'.Missing other part := by
  cases AssetCall.runUpload_step hRun with
  | stored _ =>
      apply h.minio
      intro hNone
      exact (AList.lookup_insert_ne hNe).trans hNone
  | refused _ =>
      apply h.minio
      intro hNone
      exact
        fault.apply_holds
          (P := fun minio : Table Key StoredObject =>
            minio.lookup other = none)
          hNone ((AList.lookup_insert_ne hNe).trans hNone)
  | hset size =>
      apply h.metadata hNe
      intro k hK
      exact
        Redis.apply_holds
          (P := fun r => r.lookup k = s.redis.lookup k)
          fault rfl
          (fun _ hSet => Redis.hset_lookup_ne hSet hK)
  | sadd size =>
      apply h.index
      · intro k hK
        exact
          Redis.apply_holds
            (P := fun r => r.lookup k = s.redis.lookup k)
            fault rfl
            (fun _ hAdd => Redis.sadd_lookup_ne hAdd hK)
      · intro hMember
        exact
          Redis.apply_holds
            (P := fun r =>
              r.NotMember s.clock indexKey other)
            fault hMember
            (fun _ hAdd => hMember.sadd hNe hAdd)
  | stamped size => exact h
  | filled hSet => exact h.set hNe hSet

/- A delete brings back no asset. -/
theorem missing_runDelete
    (pc : DeletePc)
    (h : s.Missing other part) :
    (AssetCall.runDelete s key fault pc).1.Missing other
      part := by
  cases pc with
  | removeObject =>
      apply h.minio
      intro hNone
      refine
        fault.apply_holds
          (P := fun minio : Table Key StoredObject =>
            minio.lookup other = none)
          hNone ?_
      by_cases hEq : other = key
      · subst hEq
        exact AList.lookup_erase _ _
      · exact (AList.lookup_erase_ne hEq).trans hNone
  | del =>
      apply h.redis
      · intro hHash
        exact
          fault.apply_holds
            (P := fun r =>
              Redis.NoHash r s.clock (metaKey other))
            hHash hHash.del
      · intro hMember
        exact
          fault.apply_holds
            (P := fun r =>
              Redis.NotMember r s.clock indexKey other)
            hMember
            (hMember.congr
              (Redis.del_lookup_ne _
                (metaKey_ne_indexKey key).symm))
  | srem =>
      apply h.index
      · intro k hK
        exact
          Redis.apply_holds
            (P := fun r => r.lookup k = s.redis.lookup k)
            fault rfl
            (fun _ hRem => Redis.srem_lookup_ne hRem hK)
      · intro hMember
        exact
          Redis.apply_holds
            (P := fun r =>
              r.NotMember s.clock indexKey other)
            fault hMember
            (fun _ hRem =>
              Redis.notMember_of_srem hRem (Or.inr hMember))
  | remove =>
      apply h.cache
      intro hNone
      rcases s.cache.drop_lookup key other with hKeep | hGone
      · exact hKeep.trans hNone
      · exact hGone

/-
  A step of a delete that is applied, or has nothing to
  remove, leaves nothing for it to remove.
-/
theorem missing_after_runDelete
    {pc : DeletePc}
    (h :
      pc = .remove ∨ fault = .none ∨ s.Missing key pc) :
    (AssetCall.runDelete s key fault pc).1.Missing key
      pc := by
  rcases h with rfl | rfl | hMissing
  · exact s.cache.drop_lookup_self key
  · cases pc with
    | removeObject => exact AList.lookup_erase _ _
    | del => exact Redis.noHash_del _ _ _
    | srem =>
        cases hRem : s.redis.srem s.clock indexKey key with
        | none =>
            simp only [AssetCall.runDelete, hRem]
            exact Redis.notMember_of_srem_none hRem
        | some redis =>
            simp only [AssetCall.runDelete, hRem]
            exact Redis.notMember_of_srem hRem (Or.inl rfl)
    | remove => exact s.cache.drop_lookup_self key
  · exact missing_runDelete pc hMissing

end

end CacheServer

------------------------------------------------------------
-- The Phases Of A Request
------------------------------------------------------------

namespace CacheServer

/- The steps of a delete that come before this one. -/
def DeletePc.passed :
    DeletePc → List DeletePc
| .removeObject => []
| .del => [.removeObject]
| .srem => [.removeObject, .del]
| .remove => [.removeObject, .del, .srem]

def AllGone
    (s : AssetStore)
    (keys : DeletedKeys) :
    Prop :=
  ∀ key ∈ keys, s.Gone key

/- What holds at rest, and in the middle of a request. -/
def DeletePhase :
    Option AssetCall → AssetStore → DeletedKeys → Prop
| some (.upload _ _ _ .putObject), s, keys =>
    AllGone s keys
| some (.upload key _ _ _), s, keys =>
    ∀ other ∈ keys, other ≠ key → s.Gone other
| some (.serveAsset key (.stamp _)), s, keys =>
    AllGone s keys ∧ key ∉ keys
| some (.serveAsset key (.fill _)), s, keys =>
    AllGone s keys ∧ key ∉ keys
| some (.deleteAsset key pc), s, keys =>
    AllGone s keys ∧ ∀ part ∈ pc.passed, s.Missing key part
| _, s, keys => AllGone s keys

section

variable {s s' : AssetStore}
variable {keys : DeletedKeys}
variable {key : Key}
variable {fault : Fault}
variable {order : MapOrder}
variable {next : AssetCall}

/- A request that is accepted at rest begins its phase. -/
theorem deletePhase_accept
    (h : BinaryHandler)
    (request : AssetRequest)
    (hRest : AllGone s keys) :
    DeletePhase (h.accept request).inFlight s keys := by
  have hCases := h.accept_cases request
  generalize h.accept request = call at hCases ⊢
  cases hCases with
  | upload _ _ => exact hRest
  | serveAsset _ _ => exact hRest
  | deleteAsset _ _ =>
      exact ⟨hRest, fun part hPart => by cases hPart⟩
  | getMeta _ _ => exact hRest
  | listAssets _ => exact hRest
  | refused _ => exact hRest

/- An upload leaves what is missing of the other assets. -/
theorem deletePhase_runUpload
    {contentType body : Bytes}
    {pc : UploadPc}
    (h :
      DeletePhase (some (.upload key contentType body pc)) s
        keys)
    (hFault : fault = .none ∨ fault.applied = false)
    (hRun :
      AssetCall.runUpload s key contentType body fault order
          pc =
        some (s', next)) :
    DeletePhase next.inFlight s'
      (acknowledge keys
        ((AssetCall.upload key contentType body pc).replies
          next)) := by
  have hOld :
      ∀ other ∈ keys, other ≠ key → s.Gone other := by
    intro other hMem hNe
    cases pc with
    | putObject => exact h other hMem
    | _ => exact h other hMem hNe
  have hOther :
      ∀ other ∈ keys, other ≠ key → s'.Gone other :=
    fun other hMem hNe part =>
      missing_runUpload (hOld other hMem hNe part) hNe hRun
  cases AssetCall.runUpload_step hRun with
  | stored _ => exact hOther
  | refused hError =>
      -- the reply is 502 and MinIO is as it was
      rcases hFault with rfl | hFalse
      · cases hError
      · have hSame :
            fault.apply s.minio
                (s.minio.insert key
                  { data := body
                    contentType := contentType }) =
              s.minio := by
          rw [fault.apply_eq, hFalse]
          rfl
        rw [hSame]
        exact h
  | hset size => exact hOther
  | sadd size => exact hOther
  | stamped size => exact hOther
  | filled hSet =>
      intro other hMem
      rcases List.mem_filter.mp hMem with ⟨hKept, hNe⟩
      exact hOther other hKept (of_decide_eq_true hNe)

/- A serve caches no asset that is gone. -/
theorem deletePhase_runServe
    {pc : ServePc}
    (h : DeletePhase (some (.serveAsset key pc)) s keys)
    (hRun :
      AssetCall.runServe s key fault order pc =
        some (s', next)) :
    DeletePhase next.inFlight s' keys := by
  cases AssetCall.runServe_step hRun with
  | hit _ =>
      intro other hMem part
      have hGone : s.Gone other := h other hMem
      exact (hGone part).get key
  | miss _ =>
      intro other hMem part
      have hGone : s.Gone other := h other hMem
      exact (hGone part).get key
  | fetched hFound _ =>
      refine ⟨h, ?_⟩
      intro hMem
      have hNone : s.minio.lookup key = none :=
        h key hMem .removeObject
      rw [hFound] at hNone
      cases hNone
  | failed _ => exact h
  | stamped obj => exact h
  | filled hSet =>
      rcases h with ⟨hGone, hNot⟩
      intro other hMem part
      have hNe : other ≠ key := by
        intro hEq
        exact hNot (hEq ▸ hMem)
      exact (hGone other hMem part).set hNe hSet

/- What a delete has passed, it has removed. -/
theorem missing_of_passed
    {pc : DeletePc}
    (h : ∀ part ∈ pc.passed, s.Missing key part)
    (hApplied :
      pc = .remove ∨ fault = .none ∨ s.Missing key pc)
    {part : DeletePc}
    (hPart : part ∈ pc.passed ∨ part = pc) :
    (AssetCall.runDelete s key fault pc).1.Missing key
      part := by
  rcases hPart with hPassed | rfl
  · exact missing_runDelete pc (h part hPassed)
  · exact missing_after_runDelete hApplied

theorem deletePhase_runDelete
    {pc : DeletePc}
    (h : DeletePhase (some (.deleteAsset key pc)) s keys)
    (hApplied :
      pc = .remove ∨ fault = .none ∨ s.Missing key pc) :
    DeletePhase
      (AssetCall.runDelete s key fault pc).2.inFlight
      (AssetCall.runDelete s key fault pc).1
      (acknowledge keys
        ((AssetCall.deleteAsset key pc).replies
          (AssetCall.runDelete s key fault pc).2)) := by
  rcases h with ⟨hGone, hPassed⟩
  have hKept :
      AllGone (AssetCall.runDelete s key fault pc).1 keys :=
    fun other hMem part =>
      missing_runDelete pc (hGone other hMem part)
  have hNow :=
    @missing_of_passed s key fault pc hPassed hApplied
  cases pc with
  | removeObject =>
      refine ⟨hKept, ?_⟩
      intro part hPart
      apply hNow
      simpa [DeletePc.passed] using hPart
  | del =>
      refine ⟨hKept, ?_⟩
      intro part hPart
      apply hNow
      simpa [DeletePc.passed] using hPart
  | srem =>
      refine ⟨hKept, ?_⟩
      intro part hPart
      apply hNow
      simpa [DeletePc.passed, or_assoc] using hPart
  | remove =>
      -- the reply adds the key, of which nothing is left
      intro other hMem part
      rcases List.mem_cons.mp hMem with rfl | hOld
      · apply hNow
        cases part with
        | remove => exact Or.inr rfl
        | _ => exact Or.inl (by decide)
      · exact hKept other hOld part

/- A step of the request in flight keeps its phase. -/
theorem deletePhase_run
    {call : AssetCall}
    (h : DeletePhase (some call) s keys)
    (hFault : fault = .none ∨ fault.applied = false)
    (hApplied :
      ∀ key pc,
        call = .deleteAsset key pc →
          pc = .remove ∨ fault = .none ∨ s.Missing key pc)
    (hRun : call.run s fault order = some (s', next)) :
    DeletePhase next.inFlight s'
      (acknowledge keys (call.replies next)) := by
  cases call with
  | upload key contentType body pc =>
      exact deletePhase_runUpload h hFault hRun
  | serveAsset key pc =>
      have hSame :
          acknowledge keys
              ((AssetCall.serveAsset key pc).replies next) =
            keys := by
        cases next with
        | done reply => rfl
        | _ => rfl
      rw [hSame]
      exact deletePhase_runServe h hRun
  | deleteAsset key pc =>
      have hEq := Option.some.inj hRun
      have hPhase :=
        deletePhase_runDelete h (hApplied key pc rfl)
      rw [hEq] at hPhase
      exact hPhase
  | getMeta key =>
      cases hRun
      exact h
  | listAssets =>
      cases hRun
      exact h
  | done reply => cases hRun

theorem AllGone.tick
    {clock : Int}
    (h : AllGone s keys)
    (hLe : s.clock ≤ clock) :
    AllGone { s with clock := clock } keys :=
  fun key hMem part => (h key hMem part).tick hLe

/- Time passing keeps the phase. -/
theorem deletePhase_tick
    {phase : Option AssetCall}
    {clock : Int}
    (h : DeletePhase phase s keys)
    (hLe : s.clock ≤ clock) :
    DeletePhase phase { s with clock := clock } keys := by
  have hOther :
      ∀ key,
        (∀ other ∈ keys, other ≠ key → s.Gone other) →
          ∀ other ∈ keys,
            other ≠ key →
              AssetStore.Gone { s with clock := clock }
                other :=
    fun _ hGone other hMem hNe part =>
      (hGone other hMem hNe part).tick hLe
  cases phase with
  | none => exact AllGone.tick h hLe
  | some call =>
      cases call with
      | upload key contentType body pc =>
          cases pc with
          | putObject => exact AllGone.tick h hLe
          | hset size => exact hOther key h
          | sadd size => exact hOther key h
          | stamp size => exact hOther key h
          | fill size asset => exact hOther key h
      | serveAsset key pc =>
          cases pc with
          | lookup => exact AllGone.tick h hLe
          | fetch => exact AllGone.tick h hLe
          | stamp obj => exact ⟨h.1.tick hLe, h.2⟩
          | fill asset => exact ⟨h.1.tick hLe, h.2⟩
      | deleteAsset key pc =>
          refine ⟨h.1.tick hLe, ?_⟩
          intro part hPart
          exact (h.2 part hPart).tick hLe
      | getMeta key => exact AllGone.tick h hLe
      | listAssets => exact AllGone.tick h hLe
      | done reply => exact AllGone.tick h hLe

end

end CacheServer

------------------------------------------------------------
-- What Clients See
------------------------------------------------------------

namespace CacheServer

section

variable {s s' : AssetStore}
variable {keys : DeletedKeys}
variable {key : Key}
variable {fault : Fault}
variable {order : MapOrder}
variable {reply : Reply}

/- An asset that is gone is not served. -/
theorem deletePhase_serves
    {pc : ServePc}
    (h : DeletePhase (some (.serveAsset key pc)) s keys)
    (hMem : key ∈ keys)
    (hRun :
      AssetCall.runServe s key fault order pc =
        some (s', .done reply)) :
    reply = notFound := by
  cases pc with
  | lookup =>
      have hNone : s.cache.items.lookup key = none :=
        h key hMem .remove
      cases AssetCall.runServe_step hRun with
      | hit hFound =>
          rw [hNone] at hFound
          cases hFound
  | fetch =>
      have hNone : s.minio.lookup key = none :=
        h key hMem .removeObject
      simp only [AssetCall.runServe, hNone] at hRun
      cases hRun
      rfl
  | stamp obj => cases hRun
  | fill asset => exact absurd hMem h.2

theorem runGetMeta_of_missing
    (fault : Fault)
    (h : s.Missing key .del) :
    AssetCall.runGetMeta s key fault = notFound := by
  unfold AssetCall.runGetMeta
  cases hHash : s.redis.hgetall s.clock (metaKey key) with
  | none => rfl
  | some hash =>
      cases fault with
      | none => exact if_pos (h hash hHash)
      | error applied text => rfl

theorem runListAssets_of_status
    (h : (AssetCall.runListAssets s fault).status = 200) :
    ∃ members,
      s.redis.smembers s.clock indexKey = some members ∧
        AssetCall.runListAssets s fault = listed members := by
  unfold AssetCall.runListAssets at h ⊢
  cases hMembers : s.redis.smembers s.clock indexKey with
  | none =>
      rw [hMembers] at h
      cases h
  | some members =>
      cases fault with
      | none => exact ⟨members, rfl, rfl⟩
      | error applied text =>
          rw [hMembers] at h
          cases h

/- A delete that gets its reply leaves nothing behind. -/
theorem deletePhase_deletes
    {pc : DeletePc}
    (h : DeletePhase (some (.deleteAsset key pc)) s keys)
    (hApplied :
      pc = .remove ∨ fault = .none ∨ s.Missing key pc)
    (hRun :
      AssetCall.runDelete s key fault pc =
        (s', .done reply)) :
    s'.Gone key := by
  have hPhase := deletePhase_runDelete h hApplied
  cases pc with
  | remove =>
      cases hRun
      exact hPhase key List.mem_cons_self
  | _ => cases hRun

end

end CacheServer

------------------------------------------------------------
-- Steps Of A Serial Run
------------------------------------------------------------

namespace CacheServer

open AssetSystem

/- Deletes get past the checks of their handler. -/
structure DeletesChecked
    (s : AssetSystem × DeletedKeys) :
    Prop where
  keys :
    ∀ key ∈ s.2, s.1.handler.ready = true ∧ key ≠ []
  calls :
    ∀ id call key,
      s.1.calls.lookup id = some call →
        call.endpoint? = some (.deleteAsset key) →
          s.1.handler.ready = true ∧ key ≠ []

section

variable {s s' : AssetSystem}
variable {keys : DeletedKeys}
variable {a : AssetAction}
variable {key : Key}

/- A key is added by its delete only. -/
theorem mem_acknowledge
    {given : Option (AssetEndpoint × Reply)}
    (h : key ∈ acknowledge keys given) :
    key ∈ keys ∨
      ∃ reply,
        given = some (.deleteAsset key, reply) ∧
          reply.status = 200 := by
  unfold acknowledge at h
  split at h
  · rename_i other reply
    by_cases hStatus : reply.status = 200
    · rw [if_pos hStatus] at h
      rcases List.mem_cons.mp h with rfl | hOld
      · exact Or.inr ⟨reply, rfl, hStatus⟩
      · exact Or.inl hOld
    · rw [if_neg hStatus] at h
      exact Or.inl h
  · rename_i other reply
    by_cases hStatus : reply.status = 201
    · rw [if_pos hStatus] at h
      exact Or.inl (List.mem_of_mem_filter h)
    · rw [if_neg hStatus] at h
      exact Or.inl h
  · exact Or.inl h

/- A request that is refused is recorded as nothing. -/
theorem recordDelete_call
    (s : AssetSystem)
    (id : Nat)
    (request : AssetRequest)
    (keys : DeletedKeys) :
    recordDelete s (.call id request) keys = keys := by
  unfold recordDelete
  cases hReply : s.reply? (.call id request) with
  | none => rfl
  | some given =>
      rcases given with ⟨endpoint, reply⟩
      rcases reply_cases hReply with hRefused | hLast
      · rcases hRefused with ⟨_, _, _, _, hDone⟩
        have hStatus := BinaryHandler.status_of_refused hDone
        cases endpoint with
        | upload key =>
            exact if_neg (fun hEq => by omega)
        | deleteAsset key =>
            exact if_neg (fun hEq => by omega)
        | _ => rfl
      · rcases hLast with ⟨_, _, _, _, _, hEq, _⟩
        cases hEq

theorem deletesChecked_step
    (hChecked : DeletesChecked (s, keys))
    (h : s.step a = some s') :
    DeletesChecked (s', recordDelete s a keys) := by
  have hHandler : s'.handler = s.handler := by
    rcases step_eq h with hNew | hMove | hTime
    · rcases hNew with ⟨_, _, _, _, rfl⟩
      rfl
    · rcases hMove with ⟨_, _, _, _, _, _, _, _, _, rfl⟩
      rfl
    · rcases hTime with ⟨_, _, rfl⟩
      rfl
  constructor
  · intro key hMem
    rw [hHandler]
    rcases mem_acknowledge hMem with hOld | hNew
    · exact hChecked.keys key hOld
    · rcases hNew with ⟨reply, hReply, hStatus⟩
      rcases reply_cases hReply with hRefused | hLast
      · rcases hRefused with ⟨_, _, _, _, hDone⟩
        have hError := BinaryHandler.status_of_refused hDone
        omega
      · rcases hLast with
          ⟨id, _, _, call, _, _, hLookup, hAsked, _⟩
        exact hChecked.calls id call key hLookup hAsked
  · intro id call key hLookup hAsked
    rw [hHandler]
    rcases step_eq h with hNew | hMove | hTime
    · rcases hNew with ⟨other, request, rfl, _, rfl⟩
      rcases Table.lookup_insert_cases hLookup with
        ⟨_, rfl⟩ | ⟨_, hOld⟩
      · have hCases := s.handler.accept_cases request
        generalize s.handler.accept request = call
          at hCases hAsked
        cases hCases with
        | deleteAsset hReady hKey =>
            cases hAsked
            exact ⟨hReady, hKey⟩
        | _ => cases hAsked
      · exact hChecked.calls id call key hOld hAsked
    · rcases hMove with
        ⟨other, fault, order, moved, store, next, rfl, hMoved,
          hRun, rfl⟩
      rcases Table.lookup_insert_cases hLookup with
        ⟨_, rfl⟩ | ⟨_, hOld⟩
      · exact
          hChecked.calls other moved key hMoved
            (AssetCall.endpoint_of_run hRun hAsked)
      · exact hChecked.calls id call key hOld hAsked
    · rcases hTime with ⟨elapsed, rfl, rfl⟩
      exact hChecked.calls id call key hLookup hAsked

/- A step that heeds the conditions keeps the phase. -/
theorem deletePhase_step
    {s s' : AssetSystem × DeletedKeys}
    (hPhase : InPhase DeletePhase s)
    (hTurn : InTurn s.1 a)
    (hApplied : DeletesApplied s.1 a)
    (h : (recordedMachine recordDelete).step s a = some s') :
    InPhase DeletePhase s' := by
  refine
    inPhase_step
      (P := fun s a => InTurn s.1 a ∧ DeletesApplied s.1 a)
      ?_ ?_ ?_ hPhase hTurn.1 ⟨hTurn, hApplied⟩ h
  · intro t id request hRest _
    rw [recordDelete_call]
    exact deletePhase_accept _ request hRest
  · intro t id fault order call store next hMid hLookup hRun
      hOk
    rcases hOk with ⟨hTurn, hApplied⟩
    rw [recordDelete, reply_of_run hLookup hRun]
    refine deletePhase_run hMid hTurn.2 ?_ hRun
    intro key pc hCall
    simpa [DeletesApplied, hLookup, hCall] using hApplied
  · intro t phase elapsed hMid
    exact deletePhase_tick hMid (by omega)

theorem notFound_of_serveAsset
    {s : AssetSystem × DeletedKeys}
    {reply : Reply}
    (hPhase : InPhase DeletePhase s)
    (hChecked : DeletesChecked s)
    (hReply : s.1.reply? a = some (.serveAsset key, reply))
    (hMem : key ∈ s.2) :
    reply = notFound := by
  rcases reply_of_inPhase hPhase hReply with
    hRefused | hLast
  · rcases hRefused with ⟨id, request, rfl, hAsked, hDone, _⟩
    rcases hChecked.keys key hMem with ⟨hReady, hKey⟩
    cases request with
    | serveAsset filename =>
        cases hAsked
        simp [BinaryHandler.accept, hReady, hKey] at hDone
    | _ => cases hAsked
  · rcases hLast with
      ⟨id, fault, order, call, store, rfl, _, hAsked, hRun,
        hMid⟩
    cases call with
    | serveAsset filename pc =>
        cases hAsked
        exact deletePhase_serves hMid hMem hRun
    | _ => cases hAsked

theorem notFound_of_getMeta
    {s : AssetSystem × DeletedKeys}
    {reply : Reply}
    (hPhase : InPhase DeletePhase s)
    (hChecked : DeletesChecked s)
    (hReply : s.1.reply? a = some (.getMeta key, reply))
    (hMem : key ∈ s.2) :
    reply = notFound := by
  rcases reply_of_inPhase hPhase hReply with
    hRefused | hLast
  · rcases hRefused with ⟨id, request, rfl, hAsked, hDone, _⟩
    rcases hChecked.keys key hMem with ⟨hReady, hKey⟩
    have hRedis : s.1.handler.hasRedis = true :=
      (Bool.and_eq_true_iff.mp hReady).2
    cases request with
    | getMeta asked =>
        cases hAsked
        simp [BinaryHandler.accept, hRedis, hKey] at hDone
    | _ => cases hAsked
  · rcases hLast with
      ⟨id, fault, order, call, store, rfl, _, hAsked, hRun,
        hMid⟩
    cases call with
    | getMeta asked =>
        cases hAsked
        cases hRun
        exact runGetMeta_of_missing fault (hMid key hMem .del)
    | _ => cases hAsked

/- A list has no key that is deleted. -/
theorem listed_of_listAssets
    {s : AssetSystem × DeletedKeys}
    {reply : Reply}
    (hPhase : InPhase DeletePhase s)
    (hReply : s.1.reply? a = some (.listAssets, reply))
    (hStatus : reply.status = 200) :
    ∃ members,
      s.1.store.redis.smembers s.1.store.clock indexKey =
        some members ∧
        reply = listed members ∧
          ∀ key ∈ s.2, key ∉ members := by
  rcases reply_of_inPhase hPhase hReply with
    hRefused | hLast
  · rcases hRefused with ⟨_, _, _, _, _, hError⟩
    omega
  · rcases hLast with
      ⟨id, fault, order, call, store, rfl, _, hAsked, hRun,
        hMid⟩
    cases call with
    | listAssets =>
        cases hRun
        rcases runListAssets_of_status hStatus with
          ⟨members, hMembers, hListed⟩
        refine ⟨members, hMembers, hListed, ?_⟩
        intro key hMem
        have hNot : s.1.store.Missing key .srem :=
          hMid key hMem .srem
        exact hNot members hMembers
    | _ => cases hAsked

theorem gone_of_deleteAsset
    {s : AssetSystem × DeletedKeys}
    {reply : Reply}
    (hPhase : InPhase DeletePhase s)
    (hApplied : DeletesApplied s.1 a)
    (hReply : s.1.reply? a = some (.deleteAsset key, reply))
    (hStatus : reply.status = 200)
    (hStep : s.1.step a = some s') :
    s'.store.Gone key := by
  rcases reply_of_inPhase hPhase hReply with
    hRefused | hLast
  · rcases hRefused with ⟨_, _, _, _, _, hError⟩
    omega
  · rcases hLast with
      ⟨id, fault, order, call, store, rfl, hLookup, hAsked,
        hRun, hMid⟩
    cases call with
    | deleteAsset asked pc =>
        cases hAsked
        simp only [step, hLookup, hRun, Option.map_some,
          Option.some.injEq] at hStep
        subst hStep
        refine
          deletePhase_deletes hMid ?_ (Option.some.inj hRun)
        simpa [DeletesApplied, hLookup] using hApplied
    | _ => cases hAsked

/- In its phase, a request is answered as it should be. -/
theorem deletesHold_of_inPhase
    {s : AssetSystem × DeletedKeys}
    (hPhase : InPhase DeletePhase s)
    (hChecked : DeletesChecked s)
    (hApplied : DeletesApplied s.1 a) :
    DeletesHold s a where
  serveAsset := fun _ _ hReply hMem =>
    notFound_of_serveAsset hPhase hChecked hReply hMem
  getMeta := fun _ _ hReply hMem =>
    notFound_of_getMeta hPhase hChecked hReply hMem
  listAssets := fun _ hReply hStatus =>
    listed_of_listAssets hPhase hReply hStatus
  deleteAsset := fun _ _ _ hReply hStatus hStep =>
    gone_of_deleteAsset hPhase hApplied hReply hStatus hStep

theorem deletesChecked_new
    (handler : BinaryHandler)
    (minio : Table Key StoredObject)
    (redis : Redis)
    (maxBytes : Int)
    (clock : Int) :
    DeletesChecked
      (AssetSystem.new handler minio redis maxBytes clock,
        []) := by
  constructor
  · intro key hMem
    cases hMem
  · intro id call key hLookup
    cases hLookup

end

end CacheServer

------------------------------------------------------------
-- Deletes In Serial Runs
------------------------------------------------------------

namespace CacheServer

open AssetSystem

/-
  In every serial run in which each command of each delete
  is applied or has nothing to remove, an acknowledged
  delete deletes; and every request gets its reply.
-/
theorem acknowledged_delete_holds
    (handler : BinaryHandler)
    (minio : Table Key StoredObject)
    (redis : Redis)
    (maxBytes : Int)
    (clock : Int)
    (actions : List AssetAction)
    (hTurn :
      (recordedMachine recordDelete).Along
        (fun s a => InTurn s.1 a)
        (AssetSystem.new handler minio redis maxBytes clock,
          [])
        actions)
    (hApplied :
      (recordedMachine recordDelete).Along
        (fun s a => DeletesApplied s.1 a)
        (AssetSystem.new handler minio redis maxBytes clock,
          [])
        actions) :
    (recordedMachine recordDelete).Along DeletesHold
        (AssetSystem.new handler minio redis maxBytes clock,
          [])
        actions ∧
      ∀ s id call,
        assetMachine.exec
              (AssetSystem.new handler minio redis maxBytes
                clock)
              actions =
            some s →
          s.calls.lookup id = some call → s.WillReply id := by
  have hRest :
      InPhase DeletePhase
        (AssetSystem.new handler minio redis maxBytes clock,
          ([] : DeletedKeys)) := by
    apply inPhase_new
    intro key hMem
    cases hMem
  have hNew :=
    deletesChecked_new handler minio redis maxBytes clock
  constructor
  · refine
      Machine.along_of_invariant
        (I := fun s => InPhase DeletePhase s ∧ DeletesChecked s)
        ?_ ?_ (hTurn.and hApplied) ⟨hRest, hNew⟩
    · intro s a s' hInv hOk hStep
      rcases Machine.withHistory_step.mp hStep with
        ⟨hMove, hLog⟩
      have hNext := deletesChecked_step hInv.2 hMove
      rw [← hLog] at hNext
      exact
        ⟨deletePhase_step hInv.1 hOk.1 hOk.2 hStep, hNext⟩
    · intro s a hInv hOk
      exact deletesHold_of_inPhase hInv.1 hInv.2 hOk.2
  · intro s id call hRun hLookup
    exact willReply_of_run hRun hLookup

/-
  A delete whose command on the index fails before the asset
  is listed, an upload, a delete, and requests about the
  deleted asset.
-/
theorem acknowledged_delete_holds_reuploaded :
    (recordedMachine recordDelete).Along DeletesHold
        (AssetSystem.new bothClients oneObject ∅ 10 0, [])
        [.call 0 (.deleteAsset [1]), .proceed 0, .proceed 0,
          .run 0 (.error false []) .stored, .proceed 0,
          .call 1 (.upload [1] [9] (some [8])), .proceed 1,
          .proceed 1, .proceed 1, .proceed 1, .proceed 1,
          .call 2 (.deleteAsset [1]), .proceed 2, .proceed 2,
          .proceed 2, .proceed 2, .call 3 (.serveAsset [1]),
          .proceed 3, .proceed 3, .call 4 (.getMeta [1]),
          .proceed 4, .call 5 .listAssets, .proceed 5] :=
  (acknowledged_delete_holds bothClients oneObject ∅ 10 0 _
    (by decide) (by decide)).1

/-
  The command on the object fails, the delete is
  acknowledged, and the object is served afterwards.
-/
theorem acknowledged_delete_served :
    ¬ ∀ (handler : BinaryHandler)
        (minio : Table Key StoredObject) (redis : Redis)
        (maxBytes clock : Int) (actions : List AssetAction),
        (recordedMachine recordDelete).Along
            (fun s a => InTurn s.1 a)
            (AssetSystem.new handler minio redis maxBytes
              clock, [])
            actions →
          (recordedMachine recordDelete).Along DeletesHold
            (AssetSystem.new handler minio redis maxBytes
              clock, [])
            actions := by
  intro h
  have hBad :=
    h bothClients oneObject ∅ 10 0
      ([.call 0 (.deleteAsset [1]),
        .run 0 (.error false []) .stored, .proceed 0,
        .proceed 0, .proceed 0, .call 1 (.serveAsset [1]),
        .proceed 1, .proceed 1, .proceed 1] ++
          [.proceed 1])
      (by decide)
  rw [Machine.along_append (Machine.exec_get rfl)] at hBad
  have hReply :=
    hBad.2.1.serveAsset [1] _ rfl (by decide)
  revert hReply
  decide

end CacheServer
