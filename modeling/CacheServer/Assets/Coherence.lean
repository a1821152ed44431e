import CacheServer.Assets.Handler

/-
  Coherence of the asset cache with MinIO.

  An upload or a delete changes MinIO in one step and the
  cache in a later one; a serve fetches an object in one
  step and caches it in a later one. The cache agrees with
  MinIO at rest if no object changes while another request
  holds bytes of its key that it is still to cache.

  Key definitions include:
    * `CacheServer.AssetCall.held`
    * `CacheServer.AssetSystem.FillsFirst`
    * `CacheServer.AssetSystem.Coherent`

  Key theorems include:
    * `CacheServer.AssetCall.run_effect`
    * `CacheServer.AssetSystem.settling_step`
    * `CacheServer.asset_cache_coherent`
    * `CacheServer.asset_cache_stale_fill`
-/

------------------------------------------------------------
-- Pending Fills And Changes
------------------------------------------------------------

namespace CacheServer

namespace AssetCall

/- The key and the bytes a request is still to cache. -/
def held :
    AssetCall → Option (Key × Bytes)
| .upload _ _ _ .putObject => none
| .upload key _ _ (.fill _ asset) => some (key, asset.data)
| .upload key _ body _ => some (key, body)
| .serveAsset key (.stamp obj) => some (key, obj.data)
| .serveAsset key (.fill asset) => some (key, asset.data)
| _ => none

/- The key whose object the request's next step changes. -/
def changes :
    AssetCall → Option Key
| .upload key _ _ .putObject => some key
| .deleteAsset key .removeObject => some key
| _ => none

/- The request has changed the object but not the cache. -/
def Settles
    (key : Key) :
    AssetCall → Prop
| .upload _ _ _ .putObject => False
| .upload other _ _ _ => other = key
| .deleteAsset _ .removeObject => False
| .deleteAsset other _ => other = key
| _ => False

def finished :
    AssetCall → Bool
| .done _ => true
| _ => false

end AssetCall

/- A step in which no backend call fails. -/
def AssetAction.NoFault :
    AssetAction → Prop
| .run _ fault _ => fault = .none
| _ => True

namespace AssetSystem

/- The key whose object this action changes. -/
def objectChanged
    (s : AssetSystem) :
    AssetAction → Option Key
| .run id _ _ => (s.calls.lookup id).bind AssetCall.changes
| _ => none

/-
  An object changes only when no request holds bytes of its
  key that are still to be cached.
-/
def FillsFirst
    (s : AssetSystem)
    (a : AssetAction) :
    Prop :=
  ∀ key ∈ s.objectChanged a,
    ∀ e ∈ s.calls.entries, ∀ p ∈ e.2.held, p.1 ≠ key

instance
    (s : AssetSystem)
    (a : AssetAction) :
    Decidable (s.FillsFirst a) := by
  unfold FillsFirst
  infer_instance

/- No request is in flight. -/
def Quiescent
    (s : AssetSystem) :
    Prop :=
  ∀ e ∈ s.calls.entries, e.2.finished = true

instance
    (s : AssetSystem) :
    Decidable s.Quiescent := by
  unfold Quiescent
  infer_instance

/-
  A cached asset has the bytes of the object of its key, and
  a key without an object is not cached.
-/
def Coherent
    (s : AssetSystem) :
    Prop :=
  (∀ key item obj,
    s.store.cache.items.lookup key = some item →
      s.store.minio.lookup key = some obj →
        item.data = obj.data) ∧
    ∀ key,
      s.store.minio.lookup key = none →
        s.store.cache.items.lookup key = none

end AssetSystem

end CacheServer

------------------------------------------------------------
-- What A Step Does To MinIO And The Cache
------------------------------------------------------------

namespace CacheServer

namespace AssetStore

/- MinIO stores these bytes under the key. -/
def Stores
    (s : AssetStore)
    (key : Key)
    (data : Bytes) :
    Prop :=
  ∃ obj, s.minio.lookup key = some obj ∧ obj.data = data

theorem Stores.of_eq
    {s s' : AssetStore}
    {key : Key}
    {data : Bytes}
    (h : s.Stores key data)
    (hEq : s'.minio.lookup key = s.minio.lookup key) :
    s'.Stores key data := by
  rcases h with ⟨obj, hLookup, hData⟩
  exact ⟨obj, hEq.trans hLookup, hData⟩

end AssetStore

namespace AssetCall

/-
  The step leaves MinIO and the cached entries alone. Bytes
  it has come to hold are those MinIO stores.
-/
structure Quiet
    (s s' : AssetStore)
    (call next : AssetCall) :
    Prop where
  minio : s'.minio = s.minio
  items : s'.cache.items = s.cache.items
  held :
    ∀ p ∈ next.held, p ∈ call.held ∨ s.Stores p.1 p.2
  settles : ∀ key, call.Settles key → next.Settles key

/- The step changes the object of a key, not the cache. -/
structure ChangesObject
    (s s' : AssetStore)
    (call next : AssetCall)
    (key : Key) :
    Prop where
  changes : call.changes = some key
  minio :
    ∀ other, other ≠ key →
      s'.minio.lookup other = s.minio.lookup other
  items : s'.cache.items = s.cache.items
  held :
    ∀ p ∈ next.held, p.1 = key ∧ s'.Stores p.1 p.2
  settles : next.Settles key
  settled : ∀ other, ¬ call.Settles other

/-
  The step caches the bytes held for a key, or uncaches the
  key, and the request is done.
-/
structure UpdatesCache
    (s s' : AssetStore)
    (call next : AssetCall)
    (key : Key) :
    Prop where
  minio : s'.minio = s.minio
  self :
    ∀ item,
      s'.cache.items.lookup key = some item →
        call.held = some (key, item.data)
  items :
    ∀ other, other ≠ key →
      s'.cache.items.lookup other =
          s.cache.items.lookup other ∨
        s'.cache.items.lookup other = none
  held : next.held = none
  settled : ∀ other, call.Settles other → other = key

/- What a step does if no backend call fails. -/
def Effect
    (s s' : AssetStore)
    (call next : AssetCall) :
    Prop :=
  Quiet s s' call next ∨
    (∃ key, ChangesObject s s' call next key) ∨
    ∃ key, UpdatesCache s s' call next key

/- A step that neither reads nor writes an object. -/
theorem effect_idle
    {s s' : AssetStore}
    {call next : AssetCall}
    (hMinio : s'.minio = s.minio)
    (hItems : s'.cache.items = s.cache.items)
    (hHeld : next.held = call.held)
    (hSettles :
      ∀ key, call.Settles key → next.Settles key) :
    Effect s s' call next := by
  refine Or.inl ⟨hMinio, hItems, ?_, hSettles⟩
  intro p hp
  rw [hHeld] at hp
  exact Or.inl hp

/- Caching the bytes a request holds. -/
theorem updatesCache_of_set
    {s : AssetStore}
    {cache : AssetCache}
    {order : MapOrder}
    {key : Key}
    {asset : CachedAsset}
    {call : AssetCall}
    {reply : Reply}
    (hSet : s.cache.set order key asset = some cache)
    (hHeld : call.held = some (key, asset.data))
    (hSettled : ∀ other, call.Settles other → other = key) :
    UpdatesCache s { s with cache := cache } call
      (.done reply) key := by
  have hLookup := AssetCache.set_lookup hSet
  refine ⟨rfl, ?_, hLookup.2, rfl, hSettled⟩
  intro item hItem
  have hEq : asset = item := by
    simpa [hLookup.1] using hItem
  rw [hHeld, hEq]

theorem runUpload_effect
    {s s' : AssetStore}
    {key : Key}
    {contentType body : Bytes}
    {order : MapOrder}
    {pc : UploadPc}
    {next : AssetCall}
    (h :
      runUpload s key contentType body .none order pc =
        some (s', next)) :
    Effect s s' (.upload key contentType body pc) next := by
  cases runUpload_step h with
  | stored _ =>
      refine Or.inr (Or.inl ⟨key, ?_⟩)
      refine ⟨rfl, ?_, rfl, ?_, rfl, ?_⟩
      · intro other hNe
        exact AList.lookup_insert_ne hNe
      · intro p hp
        have hEq : (key, body) = p := by
          simpa [held] using hp
        subst hEq
        exact ⟨rfl, _, AList.lookup_insert _, rfl⟩
      · intro other hSettles
        exact hSettles
  | refused hFault => cases hFault
  | hset size => exact effect_idle rfl rfl rfl (fun _ hs => hs)
  | sadd size => exact effect_idle rfl rfl rfl (fun _ hs => hs)
  | stamped size =>
      exact effect_idle rfl rfl rfl (fun _ hs => hs)
  | filled hSet =>
      refine Or.inr (Or.inr ⟨key, ?_⟩)
      exact updatesCache_of_set hSet rfl (fun _ hs => hs.symm)

theorem runServe_effect
    {s s' : AssetStore}
    {key : Key}
    {order : MapOrder}
    {pc : ServePc}
    {next : AssetCall}
    (h :
      runServe s key .none order pc = some (s', next)) :
    Effect s s' (.serveAsset key pc) next := by
  cases runServe_step h with
  | hit hFound =>
      exact
        effect_idle rfl (s.cache.get_items key) rfl
          (fun _ hs => hs)
  | miss hNone =>
      exact
        effect_idle rfl (s.cache.get_items key) rfl
          (fun _ hs => hs)
  | fetched hFound hFault =>
      refine Or.inl ⟨rfl, rfl, ?_, fun _ hs => hs⟩
      intro p hp
      cases hp
      exact Or.inr ⟨_, hFound, rfl⟩
  | failed reply =>
      exact effect_idle rfl rfl rfl (fun _ hs => hs)
  | stamped obj =>
      exact effect_idle rfl rfl rfl (fun _ hs => hs)
  | filled hSet =>
      refine Or.inr (Or.inr ⟨key, ?_⟩)
      exact updatesCache_of_set hSet rfl (fun _ hs => hs.elim)

theorem runDelete_effect
    (s : AssetStore)
    (key : Key)
    (pc : DeletePc) :
    Effect s (runDelete s key .none pc).1
      (.deleteAsset key pc)
      (runDelete s key .none pc).2 := by
  cases pc with
  | removeObject =>
      refine Or.inr (Or.inl ⟨key, ?_⟩)
      refine ⟨rfl, ?_, rfl, ?_, rfl, ?_⟩
      · intro other hNe
        exact AList.lookup_erase_ne hNe
      · intro p hp
        cases hp
      · intro other hSettles
        exact hSettles
  | del => exact effect_idle rfl rfl rfl (fun _ hs => hs)
  | srem => exact effect_idle rfl rfl rfl (fun _ hs => hs)
  | remove =>
      refine Or.inr (Or.inr ⟨key, ?_⟩)
      refine ⟨rfl, ?_, ?_, rfl, fun _ hs => hs.symm⟩
      · intro item hItem
        have hGone := s.cache.drop_lookup_self key
        have hHas :
            (s.cache.drop key).items.lookup key =
              some item :=
          hItem
        rw [hGone] at hHas
        cases hHas
      · intro other hNe
        exact Or.inl (s.cache.drop_lookup_ne hNe)

/- What a step without a failing backend call does. -/
theorem run_effect
    {s s' : AssetStore}
    {order : MapOrder}
    {call next : AssetCall}
    (h : call.run s .none order = some (s', next)) :
    Effect s s' call next := by
  cases call with
  | upload key contentType body pc =>
      exact runUpload_effect h
  | serveAsset key pc => exact runServe_effect h
  | deleteAsset key pc =>
      simp only [run, Option.some.injEq] at h
      have hEffect := runDelete_effect s key pc
      rw [h] at hEffect
      exact hEffect
  | getMeta key =>
      simp only [run, Option.some.injEq,
        Prod.mk.injEq] at h
      rcases h with ⟨rfl, rfl⟩
      exact effect_idle rfl rfl rfl (fun _ hs => hs)
  | listAssets =>
      simp only [run, Option.some.injEq,
        Prod.mk.injEq] at h
      rcases h with ⟨rfl, rfl⟩
      exact effect_idle rfl rfl rfl (fun _ hs => hs)
  | done reply =>
      simp [run] at h

end AssetCall

end CacheServer

------------------------------------------------------------
-- Every Disagreement Is About To Be Settled
------------------------------------------------------------

namespace CacheServer

namespace AssetSystem

/-
  Bytes held for the cache are those MinIO stores, and a
  cached entry that differs from its object belongs to a key
  that some request has changed and is still to settle.
-/
structure Settling
    (s : AssetSystem) :
    Prop where
  held :
    ∀ id call,
      s.calls.lookup id = some call →
        ∀ p ∈ call.held, s.store.Stores p.1 p.2
  cached :
    ∀ key item,
      s.store.cache.items.lookup key = some item →
        s.store.Stores key item.data ∨
          ∃ id call,
            s.calls.lookup id = some call ∧
              call.Settles key

/- A key that some call settles is still to be settled. -/
theorem settles_insert
    {calls : Table Nat AssetCall}
    {id : Nat}
    {next : AssetCall}
    {key : Key}
    (h :
      ∃ other call,
        calls.lookup other = some call ∧ call.Settles key)
    (hOwn :
      ∀ call ∈ calls.lookup id,
        call.Settles key → next.Settles key) :
    ∃ other call,
      (calls.insert id next).lookup other = some call ∧
        call.Settles key := by
  rcases h with ⟨other, call, hCall, hSettles⟩
  by_cases hEq : other = id
  · subst hEq
    exact
      ⟨other, next, AList.lookup_insert _,
        hOwn call hCall hSettles⟩
  · exact
      ⟨other, call,
        (AList.lookup_insert_ne hEq).trans hCall, hSettles⟩

/- A call that moves on settles what it had to settle. -/
theorem settles_next
    {calls : Table Nat AssetCall}
    {id : Nat}
    {call next : AssetCall}
    {key : Key}
    (hCall : calls.lookup id = some call)
    (h :
      ∃ other c,
        calls.lookup other = some c ∧ c.Settles key)
    (hOwn : call.Settles key → next.Settles key) :
    ∃ other c,
      (calls.insert id next).lookup other = some c ∧
        c.Settles key := by
  apply settles_insert h
  intro c hSame
  rw [hCall] at hSame
  cases hSame
  exact hOwn

theorem settling_quiet
    {s : AssetSystem}
    {store : AssetStore}
    {id : Nat}
    {call next : AssetCall}
    (hInv : s.Settling)
    (hCall : s.calls.lookup id = some call)
    (hQuiet : AssetCall.Quiet s.store store call next) :
    Settling
      { s with
        store := store
        calls := s.calls.insert id next } := by
  have hSame :
      ∀ key,
        store.minio.lookup key = s.store.minio.lookup key := by
    intro key
    rw [hQuiet.minio]
  constructor
  · intro other c hLookup p hp
    rcases Table.lookup_insert_cases hLookup with
      ⟨_, rfl⟩ | ⟨_, hOld⟩
    · rcases hQuiet.held p hp with hHeld | hStores
      · exact (hInv.held id call hCall p hHeld).of_eq (hSame _)
      · exact hStores.of_eq (hSame _)
    · exact (hInv.held other c hOld p hp).of_eq (hSame _)
  · intro key item hItem
    have hOld :
        s.store.cache.items.lookup key = some item := by
      rw [← hQuiet.items]
      exact hItem
    rcases hInv.cached key item hOld with hStores | hSettle
    · exact Or.inl (hStores.of_eq (hSame key))
    · apply Or.inr
      exact
        settles_next hCall hSettle (hQuiet.settles key)

theorem settling_changesObject
    {s : AssetSystem}
    {store : AssetStore}
    {id : Nat}
    {call next : AssetCall}
    {key : Key}
    (hInv : s.Settling)
    (hCall : s.calls.lookup id = some call)
    (hFree :
      ∀ e ∈ s.calls.entries, ∀ p ∈ e.2.held, p.1 ≠ key)
    (hChange :
      AssetCall.ChangesObject s.store store call next key) :
    Settling
      { s with
        store := store
        calls := s.calls.insert id next } := by
  constructor
  · intro other c hLookup p hp
    rcases Table.lookup_insert_cases hLookup with
      ⟨_, rfl⟩ | ⟨_, hOld⟩
    · exact (hChange.held p hp).2
    · have hMem : ⟨other, c⟩ ∈ s.calls.entries :=
        AList.mem_lookup_iff.mp hOld
      have hNe : p.1 ≠ key := hFree _ hMem p hp
      exact
        (hInv.held other c hOld p hp).of_eq
          (hChange.minio p.1 hNe)
  · intro k item hItem
    have hOld :
        s.store.cache.items.lookup k = some item := by
      rw [← hChange.items]
      exact hItem
    by_cases hEq : k = key
    · subst hEq
      exact
        Or.inr
          ⟨id, next, AList.lookup_insert _, hChange.settles⟩
    · rcases hInv.cached k item hOld with hStores | hSettle
      · exact Or.inl (hStores.of_eq (hChange.minio k hEq))
      · apply Or.inr
        apply settles_next hCall hSettle
        intro hSettles
        exact absurd hSettles (hChange.settled k)

theorem settling_updatesCache
    {s : AssetSystem}
    {store : AssetStore}
    {id : Nat}
    {call next : AssetCall}
    {key : Key}
    (hInv : s.Settling)
    (hCall : s.calls.lookup id = some call)
    (hUpdate :
      AssetCall.UpdatesCache s.store store call next key) :
    Settling
      { s with
        store := store
        calls := s.calls.insert id next } := by
  have hSame :
      ∀ k,
        store.minio.lookup k = s.store.minio.lookup k := by
    intro k
    rw [hUpdate.minio]
  constructor
  · intro other c hLookup p hp
    rcases Table.lookup_insert_cases hLookup with
      ⟨_, rfl⟩ | ⟨_, hOld⟩
    · rw [hUpdate.held] at hp
      cases hp
    · exact (hInv.held other c hOld p hp).of_eq (hSame _)
  · intro k item hItem
    by_cases hEq : k = key
    · subst hEq
      have hHeld := hUpdate.self item hItem
      have hStores := hInv.held id call hCall _ hHeld
      exact Or.inl (hStores.of_eq (hSame k))
    · rcases hUpdate.items k hEq with hKeep | hGone
      · have hOld :
            s.store.cache.items.lookup k = some item :=
          hKeep.symm.trans hItem
        rcases hInv.cached k item hOld with hStores | hSettle
        · exact Or.inl (hStores.of_eq (hSame k))
        · apply Or.inr
          apply settles_next hCall hSettle
          intro hSettles
          exact absurd (hUpdate.settled k hSettles) hEq
      · have hNone :
            store.cache.items.lookup k = some item :=
          hItem
        rw [hGone] at hNone
        cases hNone

/- A request just accepted holds nothing for the cache. -/
theorem accept_held
    (h : BinaryHandler)
    (request : AssetRequest) :
    (h.accept request).held = none := by
  have hCases := h.accept_cases request
  generalize h.accept request = call at hCases ⊢
  cases hCases with
  | upload _ _ => rfl
  | serveAsset _ _ => rfl
  | deleteAsset _ _ => rfl
  | getMeta _ _ => rfl
  | listAssets _ => rfl
  | refused _ => rfl

theorem settling_step
    {s s' : AssetSystem}
    {a : AssetAction}
    (hInv : s.Settling)
    (hOk : a.NoFault)
    (hFirst : s.FillsFirst a)
    (h : s.step a = some s') :
    s'.Settling := by
  rcases step_eq h with hCall | hRun | hTick
  · rcases hCall with ⟨id, request, rfl, hFresh, rfl⟩
    have hNone : s.calls.lookup id = none :=
      AList.lookup_eq_none.mpr hFresh
    constructor
    · intro other c hLookup p hp
      rcases Table.lookup_insert_cases hLookup with
        ⟨_, rfl⟩ | ⟨_, hOld⟩
      · rw [accept_held] at hp
        cases hp
      · exact hInv.held other c hOld p hp
    · intro key item hItem
      rcases hInv.cached key item hItem with hStores | hSettle
      · exact Or.inl hStores
      · apply Or.inr
        apply settles_insert hSettle
        intro c hLookup _hSettles
        rw [hNone] at hLookup
        cases hLookup
  · rcases hRun with
      ⟨id, fault, order, call, store, next, rfl, hCall, hEff,
        rfl⟩
    have hFault : fault = .none := hOk
    subst hFault
    rcases AssetCall.run_effect hEff with
      hQuiet | ⟨key, hChange⟩ | ⟨key, hUpdate⟩
    · exact settling_quiet hInv hCall hQuiet
    · have hKey :
          s.objectChanged (.run id .none order) = some key := by
        simp [objectChanged, hCall, hChange.changes]
      exact
        settling_changesObject hInv hCall (hFirst key hKey)
          hChange
    · exact settling_updatesCache hInv hCall hUpdate
  · rcases hTick with ⟨elapsed, rfl, rfl⟩
    exact ⟨hInv.held, hInv.cached⟩

theorem settling_new
    (handler : BinaryHandler)
    (minio : Table Key StoredObject)
    (redis : Redis)
    (maxBytes : Int)
    (clock : Int) :
    (AssetSystem.new handler minio redis maxBytes
      clock).Settling := by
  constructor
  · intro id call h
    cases h
  · intro key item h
    cases h

/- A finished request has nothing left to settle. -/
theorem not_settles_of_finished
    {call : AssetCall}
    {key : Key}
    (h : call.finished = true) :
    ¬ call.Settles key := by
  cases call with
  | done reply => exact fun hSettles => hSettles
  | upload key contentType body pc => cases h
  | serveAsset key pc => cases h
  | deleteAsset key pc => cases h
  | getMeta key => cases h
  | listAssets => cases h

/- At rest nothing is left to settle. -/
theorem coherent_of_quiescent
    {s : AssetSystem}
    (hInv : s.Settling)
    (hQuiet : s.Quiescent) :
    s.Coherent := by
  have hStores :
      ∀ key item,
        s.store.cache.items.lookup key = some item →
          s.store.Stores key item.data := by
    intro key item hItem
    rcases hInv.cached key item hItem with hStores | hSettle
    · exact hStores
    · rcases hSettle with ⟨id, call, hCall, hSettles⟩
      have hDone : call.finished = true :=
        hQuiet ⟨id, call⟩ (AList.mem_lookup_iff.mp hCall)
      exact absurd hSettles (not_settles_of_finished hDone)
  constructor
  · intro key item obj hItem hObj
    rcases hStores key item hItem with ⟨obj', hObj', hData⟩
    rw [hObj] at hObj'
    cases hObj'
    exact hData.symm
  · intro key hNone
    cases hItem : s.store.cache.items.lookup key with
    | none => rfl
    | some item =>
        rcases hStores key item hItem with ⟨obj, hObj, _⟩
        rw [hNone] at hObj
        cases hObj

end AssetSystem

end CacheServer

------------------------------------------------------------
-- Coherence At Rest
------------------------------------------------------------

namespace CacheServer

open AssetSystem

/-
  After every run without failing backend calls in which
  objects change only while nothing is held for the cache, a
  quiescent state is coherent.
-/
theorem asset_cache_coherent
    (handler : BinaryHandler)
    (minio : Table Key StoredObject)
    (redis : Redis)
    (maxBytes : Int)
    (clock : Int)
    (actions : List AssetAction)
    (s : AssetSystem)
    (hNoFault : ∀ a ∈ actions, a.NoFault)
    (hFirst :
      assetMachine.Along FillsFirst
        (AssetSystem.new handler minio redis maxBytes clock)
        actions)
    (hRun :
      assetMachine.exec
        (AssetSystem.new handler minio redis maxBytes clock)
        actions = some s)
    (hQuiet : s.Quiescent) :
    s.Coherent := by
  have hAlong :=
    (Machine.along_of_forall_mem hNoFault).and hFirst
  have hInv : s.Settling :=
    Machine.exec_invariant_along (I := Settling)
      (fun _ _ _ hI hP hStep =>
        settling_step hI hP.1 hP.2 hStep)
      hAlong hRun
      (settling_new handler minio redis maxBytes clock)
  exact coherent_of_quiescent hInv hQuiet

/- A step of a request in which nothing fails. -/
def AssetAction.proceed
    (id : Nat) :
    AssetAction :=
  .run id .none .stored

/- MinIO with one object of one byte. -/
def oneObject : Table Key StoredObject :=
  (∅ : Table Key StoredObject).insert [1]
    { data := [7], contentType := [] }

def bothClients : BinaryHandler :=
  { hasMinio := true, hasRedis := true }

/- A serve that caches its object, an upload, and a delete. -/
theorem asset_cache_coherent_in_turn :
    ∃ s,
      assetMachine.exec
          (AssetSystem.new bothClients oneObject ∅ 10 0)
          [.call 0 (.serveAsset [1]), .proceed 0,
            .proceed 0, .proceed 0, .proceed 0,
            .call 1 (.upload [1] [9] (some [8])), .proceed 1,
            .proceed 1, .proceed 1, .proceed 1, .proceed 1,
            .call 2 (.deleteAsset [2]), .proceed 2,
            .proceed 2, .proceed 2, .proceed 2] = some s ∧
        s.Coherent :=
  ⟨_, Machine.exec_get rfl,
    asset_cache_coherent bothClients oneObject ∅ 10 0 _ _
      (by simp [AssetAction.NoFault, AssetAction.proceed])
      (by decide) (Machine.exec_get rfl) (by decide)⟩

/-
  A serve fetches an object, a delete runs from start to end,
  and the serve caches the object that is gone.
-/
theorem asset_cache_stale_fill :
    ¬ ∀ (handler : BinaryHandler)
        (minio : Table Key StoredObject) (redis : Redis)
        (maxBytes clock : Int) (actions : List AssetAction)
        (s : AssetSystem),
        (∀ a ∈ actions, a.NoFault) →
          assetMachine.exec
              (AssetSystem.new handler minio redis maxBytes
                clock) actions = some s →
            s.Quiescent → s.Coherent := by
  intro h
  have hBad :=
    (h bothClients oneObject ∅ 10 0
      [.call 0 (.serveAsset [1]), .proceed 0, .proceed 0,
        .call 1 (.deleteAsset [1]), .proceed 1, .proceed 1,
        .proceed 1, .proceed 1, .proceed 0, .proceed 0] _
      (by simp [AssetAction.NoFault, AssetAction.proceed])
      (Machine.exec_get rfl) (by decide)).2 [1]
  revert hBad
  decide

end CacheServer
