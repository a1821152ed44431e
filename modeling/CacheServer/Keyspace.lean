import CacheServer.Assets.Handler
import CacheServer.Cache.TierSteps

/-
  The Redis keyspace that the cache and the assets share.

  The assets prefix their keys, the cache stores under the
  keys of its clients. A cache key that reads like a key of
  the assets is the only way for one side to reach the data
  of the other.

  Key definitions include:
    * `CacheServer.ClashesWithAssets`
    * `CacheServer.CacheLeavesAssets`
    * `CacheServer.AssetsLeaveCache`
    * `CacheServer.KeysApart`

  Key theorems include:
    * `CacheServer.ManagerSystem.exec_lookup_of_notMem`
    * `CacheServer.AssetCall.run_lookup_ne`
    * `CacheServer.cacheLeavesAssets_iff`
    * `CacheServer.assetsLeaveCache_iff`
    * `CacheServer.keyspaces_apart_iff`
    * `CacheServer.keyspaces_clash`
-/

------------------------------------------------------------
-- Keys Of Both Sides
------------------------------------------------------------

namespace CacheServer

/- The Redis keys that asset requests read and write. -/
def ClashesWithAssets
    (key : Key) :
    Prop :=
  key = indexKey ∨ ∃ asset, asset ≠ [] ∧ key = metaKey asset

/- The cache calls of this action are on such keys. -/
def ManagerAction.OnKeys
    (Keys : Key → Prop) :
    ManagerAction → Prop
| .call made => Keys made.key
| _ => True

/- The calls in progress are on such keys. -/
structure ManagerSystem.OnKeys
    (Keys : Key → Prop)
    (s : ManagerSystem) :
    Prop where
  procs : ∀ id p, s.procs id = some p → Keys p.key
  background :
    ∀ id key value,
      s.shared.background id = some (key, value) → Keys key

/-
  Runs of cache calls on such keys leave the replies of
  `getMeta` and `listAssets` as they were.
-/
def CacheLeavesAssets
    (Keys : Key → Prop) :
    Prop :=
  ∀ (cfg : ManagerConfig) (s s' : ManagerSystem)
    (actions : List ManagerAction),
    s.OnKeys Keys →
      (∀ a ∈ actions, a.OnKeys Keys ∧ a.NoDrop) →
        (managerMachine cfg).exec s actions = some s' →
          ∀ (store : AssetStore) (fault : Fault),
            (∀ asset, asset ≠ [] →
              AssetCall.runGetMeta
                  { store with redis := s'.redis } asset
                  fault =
                AssetCall.runGetMeta
                  { store with redis := s.redis } asset
                  fault) ∧
              AssetCall.runListAssets
                  { store with redis := s'.redis } fault =
                AssetCall.runListAssets
                  { store with redis := s.redis } fault

/-
  Runs of asset requests leave what Redis holds under such
  keys as it was.
-/
def AssetsLeaveCache
    (Keys : Key → Prop) :
    Prop :=
  ∀ (s s' : AssetSystem) (actions : List AssetAction),
    s.calls = ∅ →
      assetMachine.exec s actions = some s' →
        ∀ key, Keys key →
          s'.store.redis.lookup key =
            s.store.redis.lookup key

end CacheServer

------------------------------------------------------------
-- What The Cache Writes
------------------------------------------------------------

namespace CacheServer

namespace ManagerSystem

variable {cfg : ManagerConfig}
variable {s s' : ManagerSystem}
variable {a : ManagerAction}
variable {Keys : Key → Prop}
variable {key : Key}

theorem onKeys_step
    (hKeys : s.OnKeys Keys)
    (hAction : a.OnKeys Keys)
    (h : s.step cfg a = some s') :
    s'.OnKeys Keys := by
  constructor
  · intro id p' hProc
    rcases step_proc h hProc with
      hOld | ⟨call, rfl, _, rfl⟩ | ⟨_, _, p, _, hOld, hRun⟩
    · exact hKeys.procs id p' hOld
    · cases call with
      | get k => exact hAction
      | set k value => exact hAction
      | invalidate k => exact hAction
    · rw [Proc.run_key hRun]
      exact hKeys.procs id p hOld
  · intro id k value hEntry
    rcases step_background_entry h hEntry with
      hOld | ⟨_, _, p, _, hProc, hSpawn⟩
    · exact hKeys.background id k value hOld
    · rw [← Proc.key_of_spawned hSpawn]
      exact hKeys.procs id p hProc

/- A step of the cache leaves other keys of Redis alone. -/
theorem step_lookup_of_notMem
    (hKeys : s.OnKeys Keys)
    (hDrop : a.NoDrop)
    (hKey : ¬ Keys key)
    (h : s.step cfg a = some s') :
    s'.redis.lookup key = s.redis.lookup key := by
  apply step_lookup_of_ne h
  intro content hWrite
  rcases l2Write_cases hWrite with hRun | hBack | hDropped
  · rcases hRun with ⟨id, _, _, p, _, hProc, _, hContent⟩
    have hOn := hKeys.procs id p hProc
    rw [Proc.key_of_content hContent] at hOn
    exact hKey hOn
  · rcases hBack with ⟨id, _, value, _, hEntry, _⟩
    exact hKey (hKeys.background id key value hEntry)
  · subst hDropped
    exact hDrop

/- So does every run of cache calls. -/
theorem exec_lookup_of_notMem
    {actions : List ManagerAction}
    (hKeys : s.OnKeys Keys)
    (hActions :
      ∀ a ∈ actions, a.OnKeys Keys ∧ a.NoDrop)
    (hKey : ¬ Keys key)
    (hRun : (managerMachine cfg).exec s actions = some s') :
    s'.redis.lookup key = s.redis.lookup key := by
  have hInv :
      s'.OnKeys Keys ∧
        s'.redis.lookup key = s.redis.lookup key := by
    refine
      Machine.exec_invariant_along
        (I := fun t =>
          t.OnKeys Keys ∧
            t.redis.lookup key = s.redis.lookup key)
        ?_ (Machine.along_of_forall_mem hActions) hRun
        ⟨hKeys, rfl⟩
    intro t a t' hI hP hStep
    exact
      ⟨onKeys_step hI.1 hP.1 hStep,
        (step_lookup_of_notMem hI.1 hP.2 hKey hStep).trans
          hI.2⟩
  exact hInv.2

end ManagerSystem

end CacheServer

------------------------------------------------------------
-- What The Assets Write
------------------------------------------------------------

namespace CacheServer

namespace Redis

/- A command that may fail leaves another key alone. -/
theorem apply_lookup
    {r : Redis}
    {result : Option Redis}
    {key : Key}
    (fault : Fault)
    (h :
      ∀ r', result = some r' →
        r'.lookup key = r.lookup key) :
    (fault.apply r (result.getD r)).lookup key =
      r.lookup key :=
  apply_holds
    (P := fun r' => r'.lookup key = r.lookup key)
    fault rfl h

end Redis

namespace AssetCall

/- The asset that a request in progress is about. -/
def asset? :
    AssetCall → Option Key
| .upload key _ _ _ => some key
| .serveAsset key _ => some key
| .deleteAsset key _ => some key
| .getMeta key => some key
| .listAssets => none
| .done _ => none

/- The request is about a key that is not empty. -/
def Named
    (call : AssetCall) :
    Prop :=
  ∀ asset ∈ call.asset?, asset ≠ []

variable {s s' : AssetStore}
variable {fault : Fault}
variable {order : MapOrder}
variable {call next : AssetCall}

theorem runUpload_lookup_ne
    {asset contentType body : Bytes}
    {pc : UploadPc}
    {key : Key}
    (hIndex : key ≠ indexKey)
    (hMeta : key ≠ metaKey asset)
    (h :
      runUpload s asset contentType body fault order pc =
        some (s', next)) :
    s'.redis.lookup key = s.redis.lookup key := by
  cases runUpload_step h with
  | stored _ => rfl
  | refused _ => rfl
  | hset size =>
      exact
        Redis.apply_lookup fault
          (fun _ hSet => Redis.hset_lookup_ne hSet hMeta)
  | sadd size =>
      exact
        Redis.apply_lookup fault
          (fun _ hAdd => Redis.sadd_lookup_ne hAdd hIndex)
  | stamped size => rfl
  | filled _ => rfl

theorem runServe_redis
    {asset : Key}
    {pc : ServePc}
    (h : runServe s asset fault order pc = some (s', next)) :
    s'.redis = s.redis := by
  cases runServe_step h with
  | _ => rfl

theorem runDelete_lookup_ne
    {asset key : Key}
    {pc : DeletePc}
    (hIndex : key ≠ indexKey)
    (hMeta : key ≠ metaKey asset) :
    (runDelete s asset fault pc).1.redis.lookup key =
      s.redis.lookup key := by
  cases pc with
  | removeObject => rfl
  | del =>
      have hDel :
          ∀ r', some (s.redis.del (metaKey asset)) = some r' →
            r'.lookup key = s.redis.lookup key := by
        intro r' hEq
        cases hEq
        exact s.redis.del_lookup_ne hMeta
      exact Redis.apply_lookup fault hDel
  | srem =>
      exact
        Redis.apply_lookup fault
          (fun _ hRem => Redis.srem_lookup_ne hRem hIndex)
  | remove => rfl

/- A step of an asset request leaves cache keys alone. -/
theorem run_lookup_ne
    {key : Key}
    (hIndex : key ≠ indexKey)
    (hMeta : ∀ asset ∈ call.asset?, key ≠ metaKey asset)
    (h : call.run s fault order = some (s', next)) :
    s'.redis.lookup key = s.redis.lookup key := by
  cases call with
  | upload asset contentType body pc =>
      exact runUpload_lookup_ne hIndex (hMeta asset rfl) h
  | serveAsset asset pc => rw [runServe_redis h]
  | deleteAsset asset pc =>
      have hRun := (Prod.mk.inj (Option.some.inj h)).1
      rw [← hRun]
      exact runDelete_lookup_ne hIndex (hMeta asset rfl)
  | getMeta asset =>
      cases h
      rfl
  | listAssets =>
      cases h
      rfl
  | done reply => cases h

end AssetCall

end CacheServer

------------------------------------------------------------
-- Keys Kept Apart
------------------------------------------------------------

namespace CacheServer

/- No cache key in use is a key of the assets. -/
def KeysApart
    (Keys : Key → Prop) :
    Prop :=
  ∀ key, Keys key → ¬ ClashesWithAssets key

theorem indexKey_not_mem
    {Keys : Key → Prop}
    (hApart : KeysApart Keys) :
    ¬ Keys indexKey :=
  fun hKey => hApart indexKey hKey (Or.inl rfl)

theorem metaKey_not_mem
    {Keys : Key → Prop}
    {asset : Key}
    (hApart : KeysApart Keys)
    (hAsset : asset ≠ []) :
    ¬ Keys (metaKey asset) :=
  fun hKey =>
    hApart (metaKey asset) hKey
      (Or.inr ⟨asset, hAsset, rfl⟩)

namespace AssetCall

/- The replies depend on the keys of the assets alone. -/
theorem runGetMeta_congr
    (store : AssetStore)
    {r r' : Redis}
    {asset : Key}
    (fault : Fault)
    (h :
      r'.lookup (metaKey asset) = r.lookup (metaKey asset)) :
    runGetMeta { store with redis := r' } asset fault =
      runGetMeta { store with redis := r } asset fault := by
  unfold runGetMeta
  rw [Redis.hgetall_congr store.clock h]

theorem runListAssets_congr
    (store : AssetStore)
    {r r' : Redis}
    (fault : Fault)
    (h : r'.lookup indexKey = r.lookup indexKey) :
    runListAssets { store with redis := r' } fault =
      runListAssets { store with redis := r } fault := by
  unfold runListAssets
  rw [Redis.smembers_congr store.clock h]

theorem runUpload_asset
    {s s' : AssetStore}
    {fault : Fault}
    {order : MapOrder}
    {asset contentType body : Bytes}
    {pc : UploadPc}
    {next : AssetCall}
    (h :
      runUpload s asset contentType body fault order pc =
        some (s', next)) :
    next.asset? = some asset ∨ next.asset? = none := by
  cases runUpload_step h with
  | stored _ => exact Or.inl rfl
  | refused _ => exact Or.inr rfl
  | hset size => exact Or.inl rfl
  | sadd size => exact Or.inl rfl
  | stamped size => exact Or.inl rfl
  | filled _ => exact Or.inr rfl

theorem runServe_asset
    {s s' : AssetStore}
    {fault : Fault}
    {order : MapOrder}
    {asset : Key}
    {pc : ServePc}
    {next : AssetCall}
    (h : runServe s asset fault order pc = some (s', next)) :
    next.asset? = some asset ∨ next.asset? = none := by
  cases runServe_step h with
  | hit hFound => exact Or.inr rfl
  | miss hNone => exact Or.inl rfl
  | fetched hFound hFault => exact Or.inl rfl
  | failed reply => exact Or.inr rfl
  | stamped obj => exact Or.inl rfl
  | filled hSet => exact Or.inr rfl

/- A step keeps the asset of a request, up to its reply. -/
theorem run_asset
    {s s' : AssetStore}
    {fault : Fault}
    {order : MapOrder}
    {call next : AssetCall}
    (h : call.run s fault order = some (s', next)) :
    next.asset? = call.asset? ∨ next.asset? = none := by
  cases call with
  | upload asset contentType body pc =>
      exact runUpload_asset h
  | serveAsset asset pc => exact runServe_asset h
  | deleteAsset asset pc =>
      have hNext := (Prod.mk.inj (Option.some.inj h)).2
      rw [← hNext]
      cases pc with
      | remove => exact Or.inr rfl
      | _ => exact Or.inl rfl
  | getMeta asset =>
      cases h
      exact Or.inr rfl
  | listAssets =>
      cases h
      exact Or.inr rfl
  | done reply => cases h

end AssetCall

/- Cache calls on other keys leave the assets alone. -/
theorem cacheLeavesAssets_of_apart
    {Keys : Key → Prop}
    (hApart : KeysApart Keys) :
    CacheLeavesAssets Keys := by
  intro cfg s s' actions hKeys hActions hRun store fault
  constructor
  · intro asset hAsset
    apply AssetCall.runGetMeta_congr
    exact
      ManagerSystem.exec_lookup_of_notMem hKeys hActions
        (metaKey_not_mem hApart hAsset) hRun
  · apply AssetCall.runListAssets_congr
    exact
      ManagerSystem.exec_lookup_of_notMem hKeys hActions
        (indexKey_not_mem hApart) hRun

namespace AssetSystem

/- Every request received names an asset, if it is on one. -/
def CallsNamed
    (s : AssetSystem) :
    Prop :=
  ∀ id call, s.calls.lookup id = some call → call.Named

/- A handler refuses an empty key before it goes on. -/
theorem accept_named
    (handler : BinaryHandler)
    (request : AssetRequest) :
    (handler.accept request).Named := by
  intro asset hAsset
  have hCases := handler.accept_cases request
  generalize handler.accept request = call at hCases hAsset
  cases hCases with
  | upload _ hKey =>
      cases hAsset
      exact hKey
  | serveAsset _ hKey =>
      cases hAsset
      exact hKey
  | deleteAsset _ hKey =>
      cases hAsset
      exact hKey
  | getMeta _ hKey =>
      cases hAsset
      exact hKey
  | listAssets _ => cases hAsset
  | refused _ => cases hAsset

theorem callsNamed_step
    {s s' : AssetSystem}
    {a : AssetAction}
    (hNamed : s.CallsNamed)
    (h : s.step a = some s') :
    s'.CallsNamed := by
  intro id' call' hCall'
  rcases step_eq h with
    ⟨id, request, rfl, _, rfl⟩ |
      ⟨id, fault, order, call, store, next, rfl, hCall,
        hRun, rfl⟩ |
      ⟨elapsed, rfl, rfl⟩
  · rcases Table.lookup_insert_cases hCall' with
      ⟨_, rfl⟩ | ⟨_, hOld⟩
    · exact accept_named s.handler request
    · exact hNamed id' call' hOld
  · rcases Table.lookup_insert_cases hCall' with
      ⟨_, rfl⟩ | ⟨_, hOld⟩
    · rcases AssetCall.run_asset hRun with hSame | hGone
      · intro asset hAsset
        rw [hSame] at hAsset
        exact hNamed id call hCall asset hAsset
      · intro asset hAsset
        rw [hGone] at hAsset
        cases hAsset
    · exact hNamed id' call' hOld
  · exact hNamed id' call' hCall'

/- A step of the assets leaves every other key alone. -/
theorem step_lookup_of_not_clash
    {s s' : AssetSystem}
    {a : AssetAction}
    {key : Key}
    (hNamed : s.CallsNamed)
    (hKey : ¬ ClashesWithAssets key)
    (h : s.step a = some s') :
    s'.store.redis.lookup key =
      s.store.redis.lookup key := by
  rcases step_eq h with
    ⟨id, request, rfl, _, rfl⟩ |
      ⟨id, fault, order, call, store, next, rfl, hCall,
        hRun, rfl⟩ |
      ⟨elapsed, rfl, rfl⟩
  · rfl
  · refine
      AssetCall.run_lookup_ne
        (fun hEq => hKey (Or.inl hEq)) ?_ hRun
    intro asset hAsset hEq
    have hNonempty := hNamed id call hCall asset hAsset
    exact hKey (Or.inr ⟨asset, hNonempty, hEq⟩)
  · rfl

end AssetSystem

/- Asset requests leave the cache's own keys alone. -/
theorem assetsLeaveCache_of_apart
    {Keys : Key → Prop}
    (hApart : KeysApart Keys) :
    AssetsLeaveCache Keys := by
  intro s s' actions hCalls hRun key hKey
  have hStart : s.CallsNamed := by
    intro id call hCall
    rw [hCalls] at hCall
    cases hCall
  have hInv :
      s'.CallsNamed ∧
        s'.store.redis.lookup key =
          s.store.redis.lookup key := by
    refine
      Machine.exec_invariant
        (I := fun t =>
          t.CallsNamed ∧
            t.store.redis.lookup key =
              s.store.redis.lookup key)
        ?_ hRun ⟨hStart, rfl⟩
    intro t a t' hI hStep
    have hSame :=
      AssetSystem.step_lookup_of_not_clash hI.1
        (hApart key hKey) hStep
    exact
      ⟨AssetSystem.callsNamed_step hI.1 hStep,
        hSame.trans hI.2⟩
  exact hInv.2

end CacheServer

------------------------------------------------------------
-- Keys That Clash
------------------------------------------------------------

namespace CacheServer

/- A `Manager.Set` from start to end. -/
def setRun
    (key : Key)
    (value : Value) :
    List ManagerAction :=
  [.call (.set key value), .proceed 0, .proceed 0]

theorem setRun_onKeys
    {Keys : Key → Prop}
    {key : Key}
    (value : Value)
    (hKey : Keys key) :
    ∀ a ∈ setRun key value, a.OnKeys Keys ∧ a.NoDrop := by
  intro a hMem
  simp only [setRun, List.mem_cons, List.not_mem_nil,
    or_false] at hMem
  rcases hMem with rfl | rfl | rfl
  · exact ⟨hKey, trivial⟩
  · exact ⟨trivial, trivial⟩
  · exact ⟨trivial, trivial⟩

theorem new_onKeys
    (Keys : Key → Prop)
    (redis : Redis) :
    (ManagerSystem.new 1000 5 redis 0).OnKeys Keys := by
  constructor
  · intro id p hProc
    cases hProc
  · intro id key value hEntry
    cases hEntry

/- The stores of the assets around this Redis. -/
def assetStoreOn
    (redis : Redis) :
    AssetStore :=
  { clock := 0
    minio := ∅
    redis := redis
    cache := newAssetCache 10 }

/-
  Cache calls that may use a key keep the replies only if
  a `Set` of this key on any Redis does.
-/
theorem replies_of_cacheLeavesAssets
    {Keys : Key → Prop}
    {key : Key}
    (hLeaves : CacheLeavesAssets Keys)
    (hKey : Keys key)
    (redis : Redis) :
    (∀ asset, asset ≠ [] →
      AssetCall.runGetMeta
          (assetStoreOn (redis.set 0 5 key [7])) asset
          .none =
        AssetCall.runGetMeta (assetStoreOn redis) asset
          .none) ∧
      AssetCall.runListAssets
          (assetStoreOn (redis.set 0 5 key [7])) .none =
        AssetCall.runListAssets (assetStoreOn redis)
          .none := by
  have hRun :
      ∃ s',
        (managerMachine { useSF := true, l2TTL := 5 }).exec
            (ManagerSystem.new 1000 5 redis 0)
            (setRun key [7]) =
          some s' ∧
          s'.redis = redis.set 0 5 key [7] :=
    ⟨_, rfl, rfl⟩
  rcases hRun with ⟨s', hExec, hRedis⟩
  have hReplies :=
    hLeaves _ _ s' _ (new_onKeys Keys redis)
      (setRun_onKeys [7] hKey) hExec (assetStoreOn redis)
      .none
  rw [hRedis] at hReplies
  exact hReplies

/- What Redis holds of an asset of one byte. -/
def metaObj
    (asset : Key) :
    RedisObj :=
  { value :=
      .hash
        (Redis.putFields ∅ (metaFields asset octetStream 1 0))
    expiresAt := none }

def redisWithMeta
    (asset : Key) :
    Redis :=
  (∅ : Redis).insert (metaKey asset) (metaObj asset)

/- After a `Set` of its metadata key an asset is not found. -/
theorem getMeta_after_set
    (asset : Key) :
    AssetCall.runGetMeta
        (assetStoreOn
          ((redisWithMeta asset).set 0 5 (metaKey asset) [7]))
        asset .none ≠
      AssetCall.runGetMeta
        (assetStoreOn (redisWithMeta asset)) asset
        .none := by
  have hBefore :
      (redisWithMeta asset).lookup (metaKey asset) =
        some (metaObj asset) :=
    AList.lookup_insert _
  have hFound :
      (AssetCall.runGetMeta
        (assetStoreOn (redisWithMeta asset)) asset
        .none).status = 200 := by
    simp only [AssetCall.runGetMeta, assetStoreOn,
      Redis.hgetall, Redis.live, hBefore]
    rfl
  have hLost :
      (AssetCall.runGetMeta
        (assetStoreOn
          ((redisWithMeta asset).set 0 5 (metaKey asset) [7]))
        asset .none).status = 404 := by
    simp only [AssetCall.runGetMeta, assetStoreOn,
      Redis.hgetall, Redis.live, Redis.set_lookup_self]
    rfl
  intro hEq
  rw [hEq, hFound] at hLost
  cases hLost

/- After a `Set` of the index key no asset is listed. -/
theorem listAssets_after_set :
    AssetCall.runListAssets
        (assetStoreOn ((∅ : Redis).set 0 5 indexKey [7]))
        .none ≠
      AssetCall.runListAssets (assetStoreOn ∅) .none := by
  decide

theorem apart_of_cacheLeavesAssets
    {Keys : Key → Prop}
    (hLeaves : CacheLeavesAssets Keys) :
    KeysApart Keys := by
  intro key hKey hClash
  rcases hClash with rfl | ⟨asset, hAsset, rfl⟩
  · have hReplies :=
      replies_of_cacheLeavesAssets hLeaves hKey ∅
    exact listAssets_after_set hReplies.2
  · have hReplies :=
      replies_of_cacheLeavesAssets hLeaves hKey
        (redisWithMeta asset)
    exact getMeta_after_set asset (hReplies.1 asset hAsset)

/- An upload up to its last Redis command. -/
def uploadRun
    (asset : Key) :
    List AssetAction :=
  [.call 0 (.upload asset [] (some [])),
    .run 0 .none .stored, .run 0 .none .stored,
    .run 0 .none .stored]

/- An upload to an empty Redis stores under both its keys. -/
theorem uploadRun_stores
    {asset : Key}
    (hAsset : asset ≠ []) :
    ∃ s' entry index,
      assetMachine.exec
          (AssetSystem.new
            { hasMinio := true, hasRedis := true } ∅ ∅ 10 0)
          (uploadRun asset) =
        some s' ∧
        s'.store.redis =
          ((∅ : Redis).insert (metaKey asset) entry).insert
            indexKey index := by
  cases asset with
  | nil => exact absurd rfl hAsset
  | cons b rest => exact ⟨_, _, _, rfl, rfl⟩

theorem apart_of_assetsLeaveCache
    {Keys : Key → Prop}
    (hLeaves : AssetsLeaveCache Keys) :
    KeysApart Keys := by
  intro key hKey hClash
  rcases hClash with rfl | ⟨asset, hAsset, rfl⟩
  · rcases uploadRun_stores (List.cons_ne_nil 120 []) with
      ⟨s', entry, index, hRun, hRedis⟩
    have hSame := hLeaves _ s' _ rfl hRun indexKey hKey
    rw [hRedis, AList.lookup_insert] at hSame
    cases hSame
  · rcases uploadRun_stores hAsset with
      ⟨s', entry, index, hRun, hRedis⟩
    have hSame :=
      hLeaves _ s' _ rfl hRun (metaKey asset) hKey
    rw [hRedis,
      AList.lookup_insert_ne (metaKey_ne_indexKey asset),
      AList.lookup_insert] at hSame
    cases hSame

end CacheServer

------------------------------------------------------------
-- Noninterference
------------------------------------------------------------

namespace CacheServer

theorem cacheLeavesAssets_iff
    {Keys : Key → Prop} :
    CacheLeavesAssets Keys ↔ KeysApart Keys :=
  ⟨apart_of_cacheLeavesAssets, cacheLeavesAssets_of_apart⟩

theorem assetsLeaveCache_iff
    {Keys : Key → Prop} :
    AssetsLeaveCache Keys ↔ KeysApart Keys :=
  ⟨apart_of_assetsLeaveCache, assetsLeaveCache_of_apart⟩

/-
  The cache and the assets leave each other alone exactly if
  the cache uses no key of the assets.
-/
theorem keyspaces_apart_iff
    (Keys : Key → Prop) :
    (CacheLeavesAssets Keys ∧ AssetsLeaveCache Keys) ↔
      KeysApart Keys := by
  rw [cacheLeavesAssets_iff, assetsLeaveCache_iff]
  exact and_self_iff

/- A `Set` of `asset:x` makes the metadata of `x` vanish. -/
theorem keyspaces_clash :
    ¬ (CacheLeavesAssets (fun key => key ≠ []) ∧
      AssetsLeaveCache (fun key => key ≠ [])) := by
  intro h
  have hReplies :=
    replies_of_cacheLeavesAssets h.1
      (List.cons_ne_nil _ _ : metaKey (bytes "x") ≠ [])
      (redisWithMeta (bytes "x"))
  exact
    getMeta_after_set (bytes "x")
      (hReplies.1 (bytes "x") (List.cons_ne_nil _ _))

end CacheServer
