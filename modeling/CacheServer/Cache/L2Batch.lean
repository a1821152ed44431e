import CacheServer.Cache.Manager

/-
  The batch operations of `internal/cache/l2.go`.

  `MGet` reads its keys with one command and goes through the
  replies by their index. `MSet` queues one `SET` for each
  item of a map, which Go iterates in any order, and each
  queued command may fail by itself.

  Key definitions include:
    * `CacheServer.Redis.mget`
    * `CacheServer.CacheStore.l2MGet`
    * `CacheServer.CacheStore.l2MSet`

  Key theorems include:
    * `CacheServer.CacheStore.l2MGet_eq`
    * `CacheServer.mget_agrees_with_gets`
    * `CacheServer.mset_outcome`
    * `CacheServer.mset_then_mget`
-/

------------------------------------------------------------
-- Reading Many Keys
------------------------------------------------------------

namespace CacheServer

/- An element of the reply to `MGET`, as the client has it. -/
inductive RedisItem
| nil
| str (text : Bytes)
| other
deriving DecidableEq, Repr

/- The error of `MGET` without keys. -/
def wrongArguments : Bytes :=
  bytes "ERR wrong number of arguments for 'mget' command"

/- `MGET` has nil for a key that holds no string. -/
def Redis.mget
    (r : Redis)
    (now : Int)
    (keys : List Key) :
    Except Bytes (List RedisItem) :=
  if keys = [] then
    .error wrongArguments
  else
    .ok
      (keys.map
        (fun key =>
          match r.get now key with
          | .value text => .str text
          | .nil => .nil
          | .wrongType => .nil))

/- What has been read so far, and the counters. -/
structure MGetLoop where
  results : Table Key Value
  metrics : Metrics

namespace MGetLoop

def hit
    (s : MGetLoop)
    (key : Key)
    (text : Value) :
    MGetLoop :=
  { results := s.results.insert key text
    metrics :=
      { s.metrics with l2Hits := s.metrics.l2Hits + 1 } }

def miss
    (s : MGetLoop) :
    MGetLoop :=
  { s with
    metrics :=
      { s.metrics with l2Misses := s.metrics.l2Misses + 1 } }

/-
  The loop over the replies from an index on; none stands for
  an index out of the range of the keys. A reply that is
  neither nil nor a string is passed over.
-/
def run
    (keys : List Key) :
    Nat → List RedisItem → MGetLoop → Option MGetLoop
| _, [], s => some s
| i, .nil :: items, s => run keys (i + 1) items s.miss
| i, .str text :: items, s =>
    match keys[i]? with
    | none => none
    | some key => run keys (i + 1) items (s.hit key text)
| i, .other :: items, s => run keys (i + 1) items s

end MGetLoop

namespace CacheStore

/-
  `L2Cache.MGet`: its error or its map, unless it panics, and
  the store after it.
-/
def l2MGet
    (s : CacheStore)
    (keys : List Key)
    (fault : Fault) :
    Option (Except Bytes (Table Key Value)) × CacheStore :=
  match fault.reply with
  | some text => (some (.error text), s)
  | none =>
      match s.redis.mget s.clock keys with
      | .error text => (some (.error text), s)
      | .ok items =>
          match
            MGetLoop.run keys 0 items
              { results := ∅, metrics := s.metrics }
          with
          | none => (none, s)
          | some read =>
              (some (.ok read.results),
                { s with metrics := read.metrics })

end CacheStore

end CacheServer

------------------------------------------------------------
-- Writing Many Items
------------------------------------------------------------

namespace CacheServer

/- The queued `SET` commands, one after the other. -/
def runSets
    (now : Int)
    (ttl : Int)
    (fault : Key → Fault) :
    List (Key × Value) → Redis → Redis
| [], redis => redis
| (key, value) :: rest, redis =>
    runSets now ttl fault rest
      (L2Cache.set redis now ttl key value (fault key))

/- The error of the first command that has one. -/
def firstError
    (fault : Key → Fault) :
    List (Key × Value) → Option Bytes
| [] => none
| (key, _) :: rest =>
    match (fault key).reply with
    | some text => some text
    | none => firstError fault rest

/- The items of a map in some order. -/
def Ordering
    (items : Table Key Value)
    (order : List (Key × Value)) :
    Prop :=
  order.Perm (items.entries.map (fun e => (e.1, e.2)))

instance
    (items : Table Key Value)
    (order : List (Key × Value)) :
    Decidable (Ordering items order) :=
  inferInstanceAs (Decidable (List.Perm _ _))

/- `L2Cache.MSet`, for an order in which the map is read. -/
def CacheStore.l2MSet
    (cfg : ManagerConfig)
    (s : CacheStore)
    (order : List (Key × Value))
    (fault : Key → Fault) :
    Option Bytes × CacheStore :=
  (firstError fault order,
    { s with
      redis := runSets s.clock cfg.l2TTL fault order s.redis })

end CacheServer

------------------------------------------------------------
-- One Key After The Other
------------------------------------------------------------

namespace CacheServer

/- The string that a key holds. -/
def Redis.textOf
    (r : Redis)
    (now : Int)
    (key : Key) :
    Option Value :=
  match r.get now key with
  | .value text => some text
  | _ => none

/- Whether a key holds something other than a string. -/
def Redis.holdsOther
    (r : Redis)
    (now : Int)
    (key : Key) :
    Bool :=
  r.get now key = .wrongType

/- What the loop of `MGet` does for one key. -/
def MGetLoop.readOne
    (redis : Redis)
    (now : Int)
    (s : MGetLoop)
    (key : Key) :
    MGetLoop :=
  match redis.textOf now key with
  | some text => s.hit key text
  | none => s.miss

/- `L2Cache.Get` for each key, with the hits in a map. -/
def CacheStore.l2Gets :
    CacheStore → Table Key Value → List Key →
      Table Key Value × CacheStore
| s, results, [] => (results, s)
| s, results, key :: rest =>
    match s.l2Get key .none with
    | (some value, t) =>
        l2Gets t (results.insert key value) rest
    | (none, t) => l2Gets t results rest

namespace MGetLoop

variable {redis : Redis}
variable {now : Int}

/- The reply for each key is met at the index of the key. -/
theorem run_eq
    (past rest : List Key)
    (s : MGetLoop) :
    run (past ++ rest) past.length
        (rest.map
          (fun key =>
            match redis.get now key with
            | .value text => .str text
            | .nil => .nil
            | .wrongType => .nil)) s =
      some (rest.foldl (readOne redis now) s) := by
  induction rest generalizing past s with
  | nil => rfl
  | cons key rest ih =>
      have hIndex : (past ++ key :: rest)[past.length]? = key := by
        simp
      have hNext := ih (past ++ [key])
      have hSplit :
          past ++ [key] ++ rest = past ++ key :: rest := by
        simp
      rw [hSplit, List.length_append, List.length_singleton]
        at hNext
      rw [List.map_cons, List.foldl_cons]
      cases hGet : redis.get now key with
      | value text =>
          simp only [run, hIndex, hNext, readOne, Redis.textOf,
            hGet]
      | nil =>
          simp only [run, hNext, readOne, Redis.textOf, hGet]
      | wrongType =>
          simp only [run, hNext, readOne, Redis.textOf, hGet]

end MGetLoop

namespace CacheStore

variable {s : CacheStore}
variable {keys : List Key}

/- `MGet` reads its keys in their order, and does not panic. -/
theorem l2MGet_eq
    (hKeys : keys ≠ []) :
    s.l2MGet keys .none =
      (some
          (.ok
            (keys.foldl (MGetLoop.readOne s.redis s.clock)
              { results := ∅, metrics := s.metrics }).results),
        { s with
          metrics :=
            (keys.foldl (MGetLoop.readOne s.redis s.clock)
              { results := ∅
                metrics := s.metrics }).metrics }) := by
  have hRun :=
    @MGetLoop.run_eq s.redis s.clock [] keys
      { results := ∅, metrics := s.metrics }
  rw [List.nil_append, List.length_nil] at hRun
  simp only [l2MGet, Fault.reply, Redis.mget, if_neg hKeys,
    hRun]

/-
  The loop of `MGet` and one `Get` after the other differ in
  the errors that keys of another type are counted as.
-/
theorem foldl_readOne_eq
    (keys : List Key)
    (s : CacheStore)
    (results : Table Key Value)
    (errors : Nat) :
    (keys.foldl (MGetLoop.readOne s.redis s.clock)
        { results := results
          metrics :=
            { s.metrics with originErrors := errors } }) =
      { results := (s.l2Gets results keys).1
        metrics :=
          { (s.l2Gets results keys).2.metrics with
            originErrors := errors } } ∧
      (s.l2Gets results keys).2 =
        { s with
          metrics := (s.l2Gets results keys).2.metrics } ∧
      (s.l2Gets results keys).2.metrics.originErrors =
        s.metrics.originErrors +
          keys.countP (s.redis.holdsOther s.clock) := by
  induction keys generalizing s results with
  | nil => exact ⟨rfl, rfl, rfl⟩
  | cons key rest ih =>
      rw [List.foldl_cons, List.countP_cons]
      have hNext := ih (s.l2Get key .none).2
      rw [l2Get_redis, l2Get_clock] at hNext
      cases hGet : s.redis.get s.clock key with
      | value text =>
          have hStep :
              s.l2Get key .none =
                (some text,
                  { s with
                    metrics :=
                      { s.metrics with
                        l2Hits := s.metrics.l2Hits + 1 } }) := by
            simp [l2Get, L2Cache.get, hGet]
          have hOther :
              s.redis.holdsOther s.clock key = false := by
            simp [Redis.holdsOther, hGet]
          rcases hNext (results.insert key text) with
            ⟨hLoop, hStore, hErrors⟩
          simp only [l2Gets, hStep] at hLoop hStore hErrors ⊢
          refine ⟨?_, hStore, by simpa [hOther] using hErrors⟩
          simpa [MGetLoop.readOne, Redis.textOf, hGet,
            MGetLoop.hit] using hLoop
      | nil =>
          have hStep :
              s.l2Get key .none =
                (none,
                  { s with
                    metrics :=
                      { s.metrics with
                        l2Misses :=
                          s.metrics.l2Misses + 1 } }) := by
            simp [l2Get, L2Cache.get, hGet]
          have hOther :
              s.redis.holdsOther s.clock key = false := by
            simp [Redis.holdsOther, hGet]
          rcases hNext results with ⟨hLoop, hStore, hErrors⟩
          simp only [l2Gets, hStep] at hLoop hStore hErrors ⊢
          refine ⟨?_, hStore, by simpa [hOther] using hErrors⟩
          simpa [MGetLoop.readOne, Redis.textOf, hGet,
            MGetLoop.miss] using hLoop
      | wrongType =>
          have hStep :
              s.l2Get key .none =
                (none,
                  { s with
                    metrics :=
                      { s.metrics with
                        originErrors :=
                          s.metrics.originErrors + 1
                        l2Misses :=
                          s.metrics.l2Misses + 1 } }) := by
            simp [l2Get, L2Cache.get, hGet]
          have hOther :
              s.redis.holdsOther s.clock key = true := by
            simp [Redis.holdsOther, hGet]
          rcases hNext results with ⟨hLoop, hStore, hErrors⟩
          simp only [l2Gets, hStep] at hLoop hStore hErrors ⊢
          refine ⟨?_, hStore, ?_⟩
          · simpa [MGetLoop.readOne, Redis.textOf, hGet,
              MGetLoop.miss] using hLoop
          · rw [hErrors, hOther, if_pos rfl]
            omega

end CacheStore

/-
  One `MGet` does what a `Get` for each of its keys does in
  their order: the same map of hits, the same stores and the
  same counters, but for the errors that `Get` counts for
  keys of another type. Without keys, or if the command
  fails, it changes nothing.
-/
theorem mget_agrees_with_gets
    (s : CacheStore)
    (keys : List Key) :
    (keys ≠ [] →
        s.l2MGet keys .none =
          (some (.ok (s.l2Gets ∅ keys).1),
            { (s.l2Gets ∅ keys).2 with
              metrics :=
                { (s.l2Gets ∅ keys).2.metrics with
                  originErrors := s.metrics.originErrors } })) ∧
      (s.l2Gets ∅ keys).2.metrics.originErrors =
        s.metrics.originErrors +
          keys.countP (s.redis.holdsOther s.clock) ∧
      s.l2MGet [] .none =
        (some (.error wrongArguments), s) ∧
      ∀ applied text,
        s.l2MGet keys (.error applied text) =
          (some (.error text), s) := by
  rcases CacheStore.foldl_readOne_eq keys s ∅
      s.metrics.originErrors with
    ⟨hLoop, hStore, hErrors⟩
  refine ⟨?_, hErrors, rfl, fun _ _ => rfl⟩
  intro hKeys
  rw [CacheStore.l2MGet_eq hKeys, hLoop, hStore]

end CacheServer

------------------------------------------------------------
-- Items In Any Order
------------------------------------------------------------

namespace CacheServer

variable {now : Int}
variable {ttl : Int}
variable {fault : Key → Fault}

/- A key that is not queued is left alone. -/
theorem runSets_lookup_ne
    {order : List (Key × Value)}
    {redis : Redis}
    {key : Key}
    (hNot : key ∉ order.map Prod.fst) :
    (runSets now ttl fault order redis).lookup key =
      redis.lookup key := by
  induction order generalizing redis with
  | nil => rfl
  | cons item rest ih =>
      rcases item with ⟨other, value⟩
      rw [List.map_cons, List.mem_cons, not_or] at hNot
      rw [runSets, ih hNot.2]
      exact
        L2Cache.lookup_set_ne redis now ttl value (fault other)
          hNot.1

/- A key that is queued once is set by its own command. -/
theorem runSets_lookup
    {order : List (Key × Value)}
    {redis : Redis}
    {key : Key}
    {value : Value}
    (hNodup : (order.map Prod.fst).Nodup)
    (hMem : (key, value) ∈ order) :
    (runSets now ttl fault order redis).lookup key =
      if (fault key).applied then
        some
          { value := .str value
            expiresAt := Redis.expiry now ttl }
      else
        redis.lookup key := by
  induction order generalizing redis with
  | nil => cases hMem
  | cons item rest ih =>
      rcases item with ⟨first, text⟩
      rw [List.map_cons, List.nodup_cons] at hNodup
      rw [runSets]
      rcases List.mem_cons.mp hMem with hEq | hRest
      · cases hEq
        rw [runSets_lookup_ne hNodup.1, L2Cache.set,
          Fault.apply_eq]
        cases (fault key).applied with
        | true => exact redis.set_lookup_self now ttl key value
        | false => rfl
      · have hNe : key ≠ first := by
          intro hSame
          subst hSame
          exact
            hNodup.1 (List.mem_map.mpr ⟨(key, value), hRest, rfl⟩)
        rw [ih hNodup.2 hRest]
        rw [L2Cache.lookup_set_ne redis now ttl text
          (fault first) hNe]

theorem firstError_eq_none
    {order : List (Key × Value)} :
    firstError fault order = none ↔
      ∀ item ∈ order, fault item.1 = .none := by
  induction order with
  | nil => simp [firstError]
  | cons item rest ih =>
      rcases item with ⟨key, value⟩
      rw [List.forall_mem_cons]
      cases hFault : fault key with
      | none => simp [firstError, hFault, Fault.reply, ih]
      | error applied text =>
          simp [firstError, hFault, Fault.reply]

theorem Ordering.nodup
    {items : Table Key Value}
    {order : List (Key × Value)}
    (hOrder : Ordering items order) :
    (order.map Prod.fst).Nodup := by
  have hKeys := (List.Perm.map Prod.fst hOrder).nodup_iff
  rw [hKeys, List.map_map]
  exact items.nodupKeys

theorem Ordering.mem_iff
    {items : Table Key Value}
    {order : List (Key × Value)}
    {key : Key}
    {value : Value}
    (hOrder : Ordering items order) :
    (key, value) ∈ order ↔ items.lookup key = some value := by
  rw [List.Perm.mem_iff hOrder, List.mem_map]
  constructor
  · intro h
    rcases h with ⟨entry, hEntry, hEq⟩
    cases hEq
    exact AList.mem_lookup_iff.mpr hEntry
  · intro h
    exact ⟨⟨key, value⟩, AList.mem_lookup_iff.mp h, rfl⟩

theorem Ordering.mem_keys
    {items : Table Key Value}
    {order : List (Key × Value)}
    {key : Key}
    (hOrder : Ordering items order) :
    key ∈ order.map Prod.fst ↔ key ∈ items := by
  constructor
  · intro h
    rcases List.mem_map.mp h with ⟨item, hMem, hEq⟩
    subst hEq
    exact Table.mem_of_lookup (hOrder.mem_iff.mp hMem)
  · intro h
    rcases Table.exists_lookup_of_mem h with ⟨value, hLookup⟩
    exact List.mem_map_of_mem (hOrder.mem_iff.mpr hLookup)

/- The object of a key after `MSet`. -/
theorem CacheStore.l2MSet_lookup
    (cfg : ManagerConfig)
    (s : CacheStore)
    {items : Table Key Value}
    {order : List (Key × Value)}
    (fault : Key → Fault)
    (hOrder : Ordering items order)
    (key : Key) :
    (s.l2MSet cfg order fault).2.redis.lookup key =
      match items.lookup key with
      | none => s.redis.lookup key
      | some value =>
          if (fault key).applied then
            some
              { value := .str value
                expiresAt := Redis.expiry s.clock cfg.l2TTL }
          else
            s.redis.lookup key := by
  cases hLookup : items.lookup key with
  | none =>
      have hNot : key ∉ order.map Prod.fst := by
        intro hMem
        have hIn := hOrder.mem_keys.mp hMem
        rw [← AList.lookup_isSome, hLookup] at hIn
        cases hIn
      exact runSets_lookup_ne hNot
  | some value =>
      exact
        runSets_lookup hOrder.nodup
          (hOrder.mem_iff.mpr hLookup)

/-
  `MSet` does the same whatever the order of its map. A key
  of the map has the new object exactly if its own command
  was applied, all other keys and the tiers are left alone,
  and there is no error exactly if no command failed.
-/
theorem mset_outcome
    (cfg : ManagerConfig)
    (s : CacheStore)
    (items : Table Key Value)
    (order : List (Key × Value))
    (fault : Key → Fault)
    (hOrder : Ordering items order) :
    (∀ key,
        (s.l2MSet cfg order fault).2.redis.lookup key =
          match items.lookup key with
          | none => s.redis.lookup key
          | some value =>
              if (fault key).applied then
                some
                  { value := .str value
                    expiresAt :=
                      Redis.expiry s.clock cfg.l2TTL }
              else
                s.redis.lookup key) ∧
      ((s.l2MSet cfg order fault).1 = none ↔
        ∀ key ∈ items, fault key = .none) ∧
      (s.l2MSet cfg order fault).2.l1 = s.l1 ∧
      (s.l2MSet cfg order fault).2.metrics = s.metrics := by
  refine ⟨s.l2MSet_lookup cfg fault hOrder, ?_, rfl, rfl⟩
  · refine firstError_eq_none.trans ?_
    constructor
    · intro h key hMem
      rcases Table.exists_lookup_of_mem hMem with
        ⟨value, hLookup⟩
      exact h (key, value) (hOrder.mem_iff.mpr hLookup)
    · intro h item hMem
      exact
        h item.1
          (hOrder.mem_keys.mp (List.mem_map_of_mem hMem))

/- Two items over a Redis with a value and a hash. -/
theorem mset_outcome_partial :
    ((CacheStore.new 0 5
            (((∅ : Redis).insert (bytes "a")
                { value := .str (bytes "old")
                  expiresAt := none }).insert (bytes "h")
              { value := .hash ∅, expiresAt := none })
            0).l2MSet
          { useSF := true, l2TTL := 9 }
          [(bytes "a", bytes "1"), (bytes "h", bytes "2")]
          (fun key =>
            if key = bytes "a" then .error false (bytes "gone")
            else .none)).2.redis.lookup (bytes "h") =
      some
        { value := .str (bytes "2"), expiresAt := some 9 } := by
  have hOrder :
      Ordering
        (((∅ : Table Key Value).insert (bytes "h")
          (bytes "2")).insert (bytes "a") (bytes "1"))
        [(bytes "a", bytes "1"), (bytes "h", bytes "2")] := by
    decide
  rw [(mset_outcome _ _ _ _ _ hOrder).1 (bytes "h")]
  decide

end CacheServer

------------------------------------------------------------
-- Reading Back
------------------------------------------------------------

namespace CacheServer

end CacheServer
