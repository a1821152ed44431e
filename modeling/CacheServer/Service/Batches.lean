import CacheServer.Service.Grpc
import CacheServer.Cache.SerialSchedule
import Mathlib.Data.List.Perm.Subperm

/-
  The batch methods of the gRPC server, run alone.

  `BatchSet` and `BatchGet` go through their lists with one
  call of the manager an element. Their counters are 32 bits
  wide; their entries are a map, in which an element that
  comes again replaces what is there.

  Key definitions include:
    * `CacheServer.Grpc.setEach`
    * `CacheServer.Grpc.getEach`
    * `CacheServer.BatchSetAgrees`
    * `CacheServer.BatchGetAgrees`

  Key theorems include:
    * `CacheServer.batchSet_answers_iff`
    * `CacheServer.batchGet_counts_iff`
    * `CacheServer.batches_agree_iff`
-/

------------------------------------------------------------
-- Rounds
------------------------------------------------------------

namespace CacheServer

namespace Grpc

variable {S : Type}
variable {handle : (c : ServiceCall) → S → c.Answer × S}

theorem run_setEntry
    (counts : BatchSetResponse)
    (e : KeyValue)
    (s : S) :
    Program.run handle (setEntry counts (some e)) s =
      some
        (tally counts (handle (.set e.key e.value) s).1,
          (handle (.set e.key e.value) s).2) := rfl

theorem run_getEntry
    (batch : BatchGetResponse)
    (key : Key)
    (s : S) :
    Program.run handle (getEntry batch key) s =
      some
        (record batch key (handle (.get key) s).1,
          (handle (.get key) s).2) := rfl

theorem run_batchSet
    (entries : List (Option KeyValue))
    (s : S) :
    Program.run handle (batchSet entries) s =
      (Program.run handle
        (Program.loop setEntry noCounts entries) s).map
        (fun r => (.ok r.1, r.2)) := by
  unfold batchSet
  rw [Program.run_bind]
  cases Program.run handle
    (Program.loop setEntry noCounts entries) s with
  | none => rfl
  | some r => rfl

theorem run_batchGet
    (keys : List Key)
    (s : S) :
    Program.run handle (batchGet keys) s =
      (Program.run handle
        (Program.loop getEntry emptyBatch keys) s).map
        (fun r => (.ok r.1, r.2)) := by
  unfold batchGet
  rw [Program.run_bind]
  cases Program.run handle
    (Program.loop getEntry emptyBatch keys) s with
  | none => rfl
  | some r => rfl

/- Counters that have counted this far. -/
def counted
    (successes : Nat)
    (errors : Nat) :
    BatchSetResponse :=
  { successCount := Int32.ofNat successes
    errorCount := Int32.ofNat errors }

theorem tally_counted
    (successes errors : Nat)
    (error : Option Bytes) :
    tally (counted successes errors) error =
      if error.isNone then
        counted (successes + 1) errors
      else
        counted successes (errors + 1) := by
  cases error with
  | none => simp [tally, counted]
  | some text => simp [tally, counted]

end Grpc

end CacheServer

------------------------------------------------------------
-- A Service To Try Things On
------------------------------------------------------------

namespace CacheServer

/- No time passes and nothing fails. -/
def quietInput : SerialInput :=
  { elapsed := 0
    get :=
      { l2Get := .none, origin := .value [1], l2Set := .none }
    write := .none
    pool := { hits := 0, misses := 0, totalConns := 0 } }

def quietService : SerialService :=
  { store := CacheStore.new 1000 5 ∅ 0
    inputs := fun _ => quietInput }

/- The same with a first write that fails. -/
def SerialService.refusing
    (s : SerialService) :
    SerialService :=
  { s with
    inputs := fun n =>
      if n = 0 then
        { quietInput with write := .error false [1] }
      else
        quietInput }

end CacheServer

------------------------------------------------------------
-- BatchSet And Its Counts
------------------------------------------------------------

namespace CacheServer

open Grpc

variable {S : Type}
variable {handle : (c : ServiceCall) → S → c.Answer × S}

/- A nil entry crashes the loop, wherever it is. -/
theorem run_setLoop_of_nil
    {entries : List (Option KeyValue)}
    (counts : BatchSetResponse)
    (s : S)
    (hNil : none ∈ entries) :
    Program.run handle (Program.loop setEntry counts entries)
      s = none := by
  induction entries generalizing counts s with
  | nil => cases hNil
  | cons e rest ih =>
      rw [Program.loop_cons, Program.run_bind]
      cases e with
      | none => rfl
      | some e =>
          have hRest : none ∈ rest := by simpa using hNil
          rw [run_setEntry]
          exact ih _ _ hRest

theorem run_setLoop
    {entries : List (Option KeyValue)}
    (s : S)
    (hEntries : none ∉ entries) :
    ∃ successes errors s',
      Program.run handle
          (Program.loop setEntry noCounts entries) s =
        some (counted successes errors, s') ∧
        successes + errors = entries.length := by
  have hLoop :=
    Program.run_loop handle setEntry
      (I := fun counts _ rest =>
        none ∉ rest ∧
          ∃ successes errors,
            counts = counted successes errors ∧
              successes + errors + rest.length =
                entries.length)
      ?_ (x := noCounts) (s := s)
      ⟨hEntries, 0, 0, rfl, by simp⟩
  · rcases hLoop with
      ⟨counts, s', hRun, _, successes, errors, rfl, hSum⟩
    exact ⟨successes, errors, s', hRun, by simpa using hSum⟩
  · intro counts s e rest hInv
    rcases hInv with ⟨hRest, successes, errors, rfl, hSum⟩
    cases e with
    | none => simp at hRest
    | some e =>
        refine
          ⟨_, _, run_setEntry _ e s, by simpa using hRest, ?_⟩
        rw [tally_counted]
        simp only [List.length_cons] at hSum
        by_cases hNone :
            (handle (.set e.key e.value) s).1.isNone
        · rw [if_pos hNone]
          exact ⟨successes + 1, errors, rfl, by omega⟩
        · rw [if_neg hNone]
          exact ⟨successes, errors + 1, rfl, by omega⟩

/-
  `BatchSet` answers with counts of all its entries, whatever
  the writes do, exactly if no entry is nil.
-/
theorem batchSet_answers_iff
    (handle : (c : ServiceCall) → S → c.Answer × S)
    (s : S)
    (entries : List (Option KeyValue))
    (hLen : entries.length < 2 ^ 31) :
    (∃ counts s',
      Program.run handle (batchSet entries) s =
          some (.ok counts, s') ∧
        counts.successCount.toInt + counts.errorCount.toInt =
          entries.length) ↔
      none ∉ entries := by
  constructor
  · intro h hNil
    rcases h with ⟨counts, s', hRun, _⟩
    rw [run_batchSet, run_setLoop_of_nil noCounts s hNil]
      at hRun
    cases hRun
  · intro hEntries
    rcases @run_setLoop S handle entries s hEntries with
      ⟨successes, errors, s', hRun, hSum⟩
    refine
      ⟨counted successes errors, s', ?_, ?_⟩
    · rw [run_batchSet, hRun]
      rfl
    · have hSuccesses : successes < 2 ^ 31 := by omega
      have hErrors : errors < 2 ^ 31 := by omega
      simp only [counted]
      rw [Int32.toInt_ofNat_of_lt hSuccesses,
        Int32.toInt_ofNat_of_lt hErrors]
      omega

/- A write that fails, and one that does not. -/
theorem batchSet_answers_refused :
    ∃ counts s',
      Program.run
            (SerialService.handle
              { useSF := true, l2TTL := 60 })
            (batchSet
              [some { key := [7], value := [8] },
                some { key := [], value := [9] }])
            quietService.refusing =
          some (.ok counts, s') ∧
        counts.successCount.toInt + counts.errorCount.toInt =
          2 :=
  (batchSet_answers_iff _ quietService.refusing
    [some { key := [7], value := [8] },
      some { key := [], value := [9] }]
    (by decide)).mpr (by decide)

/- A list with a nil entry, which the codec may decode. -/
theorem batchSet_crashes :
    ¬ ∀ (cfg : ManagerConfig) (s : SerialService)
        (entries : List (Option KeyValue)),
        entries.length < 2 ^ 31 →
          ∃ counts s',
            Program.run (SerialService.handle cfg)
                (batchSet entries) s =
              some (.ok counts, s') ∧
              counts.successCount.toInt +
                  counts.errorCount.toInt =
                entries.length := by
  intro h
  rcases h { useSF := true, l2TTL := 60 } quietService [none]
    (by decide) with ⟨counts, s', hRun, _⟩
  cases hRun

end CacheServer

------------------------------------------------------------
-- BatchGet And Its Counts
------------------------------------------------------------

namespace CacheServer

/- The number of entries that are found, or not found. -/
def BatchGetResponse.count
    (batch : BatchGetResponse)
    (found : Bool) :
    Nat :=
  batch.entries.entries.countP (fun e => e.2.found = found)

/- The entries are those of the keys, and are counted. -/
structure BatchGetResponse.Describes
    (batch : BatchGetResponse)
    (keys : List Key) :
    Prop where
  mem : ∀ key, key ∈ batch.entries ↔ key ∈ keys
  hits : batch.hits.toInt = batch.count true
  misses : batch.misses.toInt = batch.count false

open Grpc

variable {S : Type}
variable {handle : (c : ServiceCall) → S → c.Answer × S}

namespace BatchGetResponse

/- The counters are those of rounds over these keys. -/
structure Recorded
    (batch : BatchGetResponse)
    (keys : List Key)
    (hits : Nat)
    (misses : Nat) :
    Prop where
  mem : ∀ key, key ∈ batch.entries ↔ key ∈ keys
  hits_eq : batch.hits = Int32.ofNat hits
  misses_eq : batch.misses = Int32.ofNat misses
  sum : hits + misses = keys.length
  exact :
    keys.Nodup →
      hits = batch.count true ∧ misses = batch.count false

theorem count_insert
    {batch next : BatchGetResponse}
    {key : Key}
    {entry : CacheEntry}
    (found : Bool)
    (hInsert :
      next.entries = batch.entries.insert key entry)
    (hNew : key ∉ batch.entries) :
    next.count found =
      batch.count found +
        if entry.found = found then 1 else 0 := by
  have hSame := Table.erase_of_notMem hNew
  have hEntries :
      next.entries.entries =
        ⟨key, entry⟩ :: batch.entries.entries := by
    calc next.entries.entries
        = ⟨key, entry⟩ ::
            (batch.entries.erase key).entries := by
          rw [hInsert]
          rfl
      _ = ⟨key, entry⟩ :: batch.entries.entries := by
          rw [hSame]
  unfold count
  rw [hEntries, List.countP_cons]
  simp

/- A round with the entry of a key, counted as what it is. -/
theorem Recorded.insert
    {batch next : BatchGetResponse}
    {keys : List Key}
    {hits misses : Nat}
    {key : Key}
    {entry : CacheEntry}
    (h : batch.Recorded keys hits misses)
    (hInsert :
      next.entries = batch.entries.insert key entry)
    (hHits :
      next.hits =
        Int32.ofNat
          (hits + if entry.found = true then 1 else 0))
    (hMisses :
      next.misses =
        Int32.ofNat
          (misses + if entry.found = false then 1 else 0)) :
    next.Recorded (keys ++ [key])
      (hits + if entry.found = true then 1 else 0)
      (misses + if entry.found = false then 1 else 0) where
  mem := by
    intro other
    rw [hInsert]
    simp only [AList.mem_insert, h.mem, List.mem_append,
      List.mem_singleton]
    exact Or.comm
  hits_eq := hHits
  misses_eq := hMisses
  sum := by
    have hSum := h.sum
    simp only [List.length_append, List.length_singleton]
    cases entry.found with
    | true =>
        simp only [if_true, Bool.true_eq_false, if_false]
        omega
    | false =>
        simp only [if_true, Bool.false_eq_true, if_false]
        omega
  exact := by
    intro hNodup
    rcases List.nodup_append.mp hNodup with
      ⟨hKeys, _, hApart⟩
    have hNew : key ∉ batch.entries := by
      rw [h.mem]
      intro hMem
      exact hApart key hMem key (by simp) rfl
    rcases h.exact hKeys with ⟨hFound, hNotFound⟩
    rw [count_insert true hInsert hNew,
      count_insert false hInsert hNew, ← hFound, ← hNotFound]
    exact ⟨rfl, rfl⟩

theorem Recorded.record
    {batch : BatchGetResponse}
    {keys : List Key}
    {hits misses : Nat}
    (h : batch.Recorded keys hits misses)
    (key : Key)
    (result : GetResult) :
    ∃ hits' misses',
      (record batch key result).Recorded (keys ++ [key]) hits'
        misses' := by
  cases result with
  | ok value =>
      refine ⟨_, _, h.insert rfl ?_ ?_⟩
      · simp [Grpc.record, h.hits_eq]
      · simp [Grpc.record, h.misses_eq]
  | originFailed asked cause =>
      refine ⟨_, _, h.insert rfl ?_ ?_⟩
      · simp [Grpc.record, h.hits_eq]
      · simp [Grpc.record, h.misses_eq]

/- Keys that are no more than the entries do not repeat. -/
theorem nodup_of_counts
    {batch : BatchGetResponse}
    {keys : List Key}
    (hMem : ∀ key, key ∈ batch.entries ↔ key ∈ keys)
    (hLen :
      batch.count true + batch.count false = keys.length) :
    keys.Nodup := by
  have hEntries :
      batch.entries.keys.length = keys.length := by
    have hSplit :=
      List.length_eq_countP_add_countP
        (l := batch.entries.entries) (fun e => e.2.found)
    have hKeys :
        batch.entries.keys.length =
          batch.entries.entries.length :=
      List.length_map _
    simp only [count] at hLen
    rw [hKeys, hSplit, ← hLen]
    simp
  have hSub : batch.entries.keys.Subperm keys := by
    apply batch.entries.keys_nodup.subperm
    intro key hKey
    exact (hMem key).mp (AList.mem_keys.mpr hKey)
  have hPerm := hSub.perm_of_length_le (le_of_eq hEntries.symm)
  exact hPerm.nodup_iff.mp batch.entries.keys_nodup

end BatchGetResponse

open BatchGetResponse

theorem run_getLoop
    (keys : List Key)
    (s : S) :
    ∃ batch s' hits misses,
      Program.run handle
          (Program.loop getEntry emptyBatch keys) s =
        some (batch, s') ∧
        batch.Recorded keys hits misses := by
  have hLoop :=
    Program.run_loop handle getEntry
      (I := fun batch _ rest =>
        ∃ done hits misses,
          done ++ rest = keys ∧
            batch.Recorded done hits misses)
      ?_ (x := emptyBatch) (s := s)
      ⟨[], 0, 0, rfl,
        ⟨fun _ => by simp [emptyBatch], rfl, rfl, rfl,
          fun _ => ⟨rfl, rfl⟩⟩⟩
  · rcases hLoop with
      ⟨batch, s', hRun, done, hits, misses, hDone, hRec⟩
    rw [List.append_nil] at hDone
    subst hDone
    exact ⟨batch, s', hits, misses, hRun, hRec⟩
  · intro batch s key rest hInv
    rcases hInv with ⟨done, hits, misses, hDone, hRec⟩
    refine ⟨_, _, run_getEntry batch key s, ?_⟩
    have hNext : (done ++ [key]) ++ rest = keys := by
      rw [← hDone]
      simp
    rcases hRec.record key (handle (.get key) s).1 with
      ⟨hits', misses', hRec'⟩
    exact ⟨done ++ [key], hits', misses', hNext, hRec'⟩

/-
  The entries of `BatchGet` are those of the keys asked for,
  whatever the reads do, and its counts describe them exactly
  if no key is asked for twice.
-/
theorem batchGet_counts_iff
    (handle : (c : ServiceCall) → S → c.Answer × S)
    (s : S)
    (keys : List Key)
    (hLen : keys.length < 2 ^ 31) :
    ∃ batch s',
      Program.run handle (batchGet keys) s =
          some (.ok batch, s') ∧
        (∀ key, key ∈ batch.entries ↔ key ∈ keys) ∧
          (batch.Describes keys ↔ keys.Nodup) := by
  rcases @run_getLoop S handle keys s with
    ⟨batch, s', hits, misses, hRun, hRec⟩
  have hSum := hRec.sum
  have hHits : batch.hits.toInt = hits := by
    rw [hRec.hits_eq]
    exact Int32.toInt_ofNat_of_lt (by omega)
  have hMisses : batch.misses.toInt = misses := by
    rw [hRec.misses_eq]
    exact Int32.toInt_ofNat_of_lt (by omega)
  refine ⟨batch, s', ?_, hRec.mem, ?_, ?_⟩
  · rw [run_batchGet, hRun]
    rfl
  · intro hDescribes
    apply nodup_of_counts hRec.mem
    have hTrue := hDescribes.hits
    have hFalse := hDescribes.misses
    omega
  · intro hNodup
    rcases hRec.exact hNodup with ⟨hTrue, hFalse⟩
    exact
      ⟨hRec.mem, by rw [hHits, hTrue], by rw [hMisses, hFalse]⟩

/- Two keys, of which one is the empty key. -/
theorem batchGet_counts_missing :
    ∃ batch s',
      Program.run
            (SerialService.handle
              { useSF := true, l2TTL := 60 })
            (batchGet [[7], []]) quietService =
          some (.ok batch, s') ∧
        (∀ key, key ∈ batch.entries ↔ key ∈ [[7], []]) ∧
          batch.Describes [[7], []] := by
  rcases
      batchGet_counts_iff
        (SerialService.handle { useSF := true, l2TTL := 60 })
        quietService [[7], []] (by decide) with
    ⟨batch, s', hRun, hMem, hIff⟩
  exact ⟨batch, s', hRun, hMem, hIff.mpr (by decide)⟩

/- A key that is asked for twice is counted twice. -/
theorem batchGet_counts_twice :
    ¬ ∀ (cfg : ManagerConfig) (s : SerialService)
        (keys : List Key),
        keys.length < 2 ^ 31 →
          ∃ batch s',
            Program.run (SerialService.handle cfg)
                (batchGet keys) s =
              some (.ok batch, s') ∧
              batch.Describes keys := by
  intro h
  rcases h { useSF := true, l2TTL := 60 } quietService
    [[7], [7]] (by decide) with ⟨batch, s', hRun, hDescribes⟩
  cases hRun
  have hHits := hDescribes.hits
  revert hHits
  decide

end CacheServer

------------------------------------------------------------
-- One Call After The Other
------------------------------------------------------------

namespace CacheServer

namespace Grpc

/- `Set` on each entry in order, and what each returns. -/
def setEach
    (entries : List KeyValue) :
    ServiceProgram (List (Returned SetResponse)) :=
  Program.loop
    (fun results e =>
      (set e.key e.value).bind
        (fun result => .ret (results ++ [result])))
    [] entries

/-
  `Get` on each key in order. The last answer comes first,
  so that a lookup finds the last one for its key.
-/
def getEach
    (keys : List Key) :
    ServiceProgram (List (Key × Returned GetResponse)) :=
  Program.loop
    (fun answers key =>
      (get key).bind
        (fun answer => .ret ((key, answer) :: answers)))
    [] keys

end Grpc

/- The value of a `Get` that succeeds. -/
def Returned.value?
    (answer : Returned GetResponse) :
    Option Value :=
  match answer.error with
  | none => answer.response.map GetResponse.value
  | some _ => none

open Grpc

/- `BatchSet` does what the `Set`s do, and counts them. -/
def BatchSetAgrees
    (cfg : ManagerConfig)
    (s : SerialService)
    (entries : List KeyValue) :
    Prop :=
  ∃ counts results t u,
    Program.run (SerialService.handle cfg)
          (batchSet (entries.map some)) s =
        some (.ok counts, t) ∧
      Program.run (SerialService.handle cfg)
          (setEach entries) s =
        some (results, u) ∧
        t.store.l1 = u.store.l1 ∧
          t.store.redis = u.store.redis ∧
            counts.successCount.toInt =
              results.countP (fun r => r.error.isNone)

/- `BatchGet` has the answers of the `Get`s. -/
def BatchGetAgrees
    (cfg : ManagerConfig)
    (s : SerialService)
    (keys : List Key) :
    Prop :=
  ∃ batch answers t u,
    Program.run (SerialService.handle cfg) (batchGet keys)
          s =
        some (.ok batch, t) ∧
      Program.run (SerialService.handle cfg) (getEach keys)
          s =
        some (answers, u) ∧
        t.store.l1 = u.store.l1 ∧
          t.store.redis = u.store.redis ∧
            ∀ key ∈ keys,
              ∃ entry answer,
                batch.entries.lookup key = some entry ∧
                  answers.lookup key = some answer ∧
                    ∀ value,
                      entry.found = true ∧
                          entry.value = value ↔
                        answer.value? = some value

/- The stores of a manager in some state of some run. -/
def ReachableStore
    (cfg : ManagerConfig)
    (store : CacheStore) :
    Prop :=
  ∃ maxSize l1TTL redis clock s,
    (managerMachine cfg).Reaches
        (ManagerSystem.new maxSize l1TTL redis clock) s ∧
      s.shared.store = store

end CacheServer

------------------------------------------------------------
-- Batches Of Named Keys
------------------------------------------------------------

namespace CacheServer

open Grpc

variable {cfg : ManagerConfig}

/- The round of a `Set` on a key that is not empty. -/
theorem run_set
    {key : Key}
    (value : Value)
    (s : SerialService)
    (hKey : key ≠ []) :
    Program.run (SerialService.handle cfg)
        (Grpc.set key value) s =
      some
        (written
          (SerialService.handle cfg (.set key value) s).1,
          (SerialService.handle cfg
            (.set key value) s).2) := by
  unfold Grpc.set
  rw [if_neg hKey]
  rfl

/- An empty key is refused before any call. -/
theorem run_set_nil
    (value : Value)
    (s : SerialService) :
    Program.run (SerialService.handle cfg)
        (Grpc.set [] value) s =
      some (.failed .keyRequired, s) := rfl

/- The round of a `Get` on a key that is not empty. -/
theorem run_get
    {key : Key}
    (s : SerialService)
    (hKey : key ≠ []) :
    ∃ answer,
      Program.run (SerialService.handle cfg) (Grpc.get key)
          s =
        some
          (answer,
            (SerialService.handle cfg (.get key) s).2) ∧
        answer.value? =
          (SerialService.handle cfg
            (.get key) s).1.value? := by
  unfold Grpc.get
  rw [if_neg hKey]
  simp only [Program.bind_eq, Program.perform_bind,
    Program.run_call]
  have hNow :
      (SerialService.handle cfg .now s).2 = s := rfl
  rw [hNow]
  generalize
    SerialService.handle cfg (.get key) s = answered
  rcases answered with ⟨result, t⟩
  cases result with
  | ok value => exact ⟨_, rfl, rfl⟩
  | originFailed asked cause => exact ⟨_, rfl, rfl⟩

/- No write to come fails. -/
def SerialService.WritesApplied
    (s : SerialService) :
    Prop :=
  ∀ n, (s.inputs n).write = .none

/- The two loops over entries whose keys are not empty. -/
theorem run_setLoops
    {entries : List KeyValue}
    (s : SerialService)
    (hKeys : ∀ e ∈ entries, e.key ≠ []) :
    ∃ successes errors results s',
      Program.run (SerialService.handle cfg)
          (Program.loop setEntry noCounts
            (entries.map some)) s =
        some (counted successes errors, s') ∧
        Program.run (SerialService.handle cfg)
            (setEach entries) s =
          some (results, s') ∧
          successes =
            results.countP (fun r => r.error.isNone) ∧
            successes + errors = entries.length ∧
              (s.WritesApplied → errors = 0) := by
  have hLoops :=
    Program.run_loops (SerialService.handle cfg)
      (fun counts e => setEntry counts (some e))
      (fun results (e : KeyValue) =>
        (Grpc.set e.key e.value).bind
          (fun result => .ret (results ++ [result])))
      (I := fun counts results t rest =>
        (∀ e ∈ rest, e.key ≠ []) ∧
          ∃ successes errors,
            counts = counted successes errors ∧
              successes =
                results.countP (fun r => r.error.isNone) ∧
                successes + errors + rest.length =
                    entries.length ∧
                  (s.WritesApplied →
                    t.WritesApplied ∧ errors = 0))
      ?_ (x := noCounts) (y := []) (s := s)
      ⟨hKeys, 0, 0, rfl, rfl, by simp, fun h => ⟨h, rfl⟩⟩
  · rcases hLoops with
      ⟨counts, results, s', hFirst, hOther, _, successes,
        errors, rfl, hCount, hSum, hApplied⟩
    refine
      ⟨successes, errors, results, s', ?_, hOther, hCount,
        by simpa using hSum, fun h => (hApplied h).2⟩
    rw [Program.loop_map]
    exact hFirst
  · intro counts results t e rest hInv
    rcases hInv with
      ⟨hRest, successes, errors, rfl, hCount, hSum, hApplied⟩
    have hKey := hRest e (by simp)
    refine
      ⟨_,
        results ++
          [written
            (SerialService.handle cfg
              (.set e.key e.value) t).1],
        _, run_setEntry _ e t, ?_,
        fun e he => hRest e (List.mem_cons_of_mem _ he), ?_⟩
    · rw [Program.run_bind, run_set e.value t hKey]
      rfl
    · rw [tally_counted]
      simp only [List.length_cons] at hSum
      have hAnswer :
          (SerialService.handle cfg
              (.set e.key e.value) t).1 =
            (t.inputs 0).write.reply := rfl
      rw [hAnswer]
      cases hWrite : (t.inputs 0).write with
      | none =>
          refine
            ⟨successes + 1, errors, rfl, ?_, by omega, ?_⟩
          · simp [hCount, written, Fault.reply]
          · intro hAll
            rcases hApplied hAll with ⟨hNext, hZero⟩
            exact ⟨fun n => hNext (n + 1), hZero⟩
      | error applied text =>
          refine
            ⟨successes, errors + 1, rfl, ?_, by omega, ?_⟩
          · simp [hCount, written, Fault.reply]
          · intro hAll
            have hNone := (hApplied hAll).1 0
            rw [hWrite] at hNone
            cases hNone

/- The entry for a key describes the result of its `Get`. -/
theorem record_lookup_self
    (batch : BatchGetResponse)
    (key : Key)
    (result : GetResult) :
    ∃ entry,
      (record batch key result).entries.lookup key =
          some entry ∧
        ∀ value,
          entry.found = true ∧ entry.value = value ↔
            result.value? = some value := by
  cases result with
  | ok found =>
      exact
        ⟨_, AList.lookup_insert _, by simp [GetResult.value?]⟩
  | originFailed asked cause =>
      exact
        ⟨_, AList.lookup_insert _, by simp [GetResult.value?]⟩

theorem record_lookup_ne
    (batch : BatchGetResponse)
    {key other : Key}
    (result : GetResult)
    (hNe : other ≠ key) :
    (record batch key result).entries.lookup other =
      batch.entries.lookup other := by
  cases result with
  | ok found => exact AList.lookup_insert_ne hNe
  | originFailed asked cause =>
      exact AList.lookup_insert_ne hNe

/- The two loops over keys that are not empty. -/
theorem run_getLoops
    {keys : List Key}
    (s : SerialService)
    (hKeys : ∀ key ∈ keys, key ≠ []) :
    ∃ batch answers s',
      Program.run (SerialService.handle cfg)
          (Program.loop getEntry emptyBatch keys) s =
        some (batch, s') ∧
        Program.run (SerialService.handle cfg)
            (getEach keys) s =
          some (answers, s') ∧
          ∀ key ∈ keys,
            ∃ entry answer,
              batch.entries.lookup key = some entry ∧
                answers.lookup key = some answer ∧
                  ∀ value,
                    entry.found = true ∧
                        entry.value = value ↔
                      answer.value? = some value := by
  have hLoops :=
    Program.run_loops (SerialService.handle cfg) getEntry
      (fun answers (key : Key) =>
        (Grpc.get key).bind
          (fun answer => .ret ((key, answer) :: answers)))
      (I := fun batch answers _ rest =>
        (∀ key ∈ rest, key ≠ []) ∧
          ∀ key ∈ keys,
            key ∉ rest →
              ∃ entry answer,
                batch.entries.lookup key = some entry ∧
                  List.lookup key answers = some answer ∧
                    ∀ value,
                      entry.found = true ∧
                          entry.value = value ↔
                        answer.value? = some value)
      ?_ (x := emptyBatch) (y := []) (s := s)
      ⟨hKeys, fun key hMem hNot => absurd hMem hNot⟩
  · rcases hLoops with
      ⟨batch, answers, s', hFirst, hOther, _, hAll⟩
    exact
      ⟨batch, answers, s', hFirst, hOther,
        fun key hMem => hAll key hMem (by simp)⟩
  · intro batch answers t key rest hInv
    rcases hInv with ⟨hRest, hAll⟩
    rcases @run_get cfg key t (hRest key (by simp)) with
      ⟨answer, hRun, hValue⟩
    refine
      ⟨_, (key, answer) :: answers, _,
        run_getEntry batch key t, ?_,
        fun k hk => hRest k (List.mem_cons_of_mem _ hk), ?_⟩
    · rw [Program.run_bind, hRun]
      rfl
    · intro other hMem hNot
      by_cases hEq : other = key
      · subst hEq
        rcases record_lookup_self batch other
          (SerialService.handle cfg (.get other) t).1 with
          ⟨entry, hEntry, hIff⟩
        refine
          ⟨entry, answer, hEntry, List.lookup_cons_self, ?_⟩
        rw [hValue]
        exact hIff
      · have hOld : other ∉ key :: rest := by
          simp [hEq, hNot]
        rcases hAll other hMem hOld with
          ⟨entry, found, hEntry, hFound, hIff⟩
        refine ⟨entry, found, ?_, ?_, hIff⟩
        · rw [record_lookup_ne batch _ hEq]
          exact hEntry
        · rw [List.lookup_cons, beq_false_of_ne hEq]
          exact hFound

end CacheServer

------------------------------------------------------------
-- Batches With An Empty Key
------------------------------------------------------------

namespace CacheServer

open Grpc

variable {cfg : ManagerConfig}

/- Nothing fails in any call to come. -/
def SerialService.Quiet
    (s : SerialService) :
    Prop :=
  ∀ n, s.inputs n = quietInput

/- A batch writes under the empty key as under any other. -/
theorem run_setLoop_nilKey
    {entries : List KeyValue}
    {s : SerialService}
    (hQuiet : s.Quiet)
    (hMem : ∃ e ∈ entries, e.key = []) :
    ∃ counts t,
      Program.run (SerialService.handle cfg)
          (Program.loop setEntry noCounts
            (entries.map some)) s =
        some (counts, t) ∧
        t.store.redis.lookup [] ≠ none := by
  have hLoop :=
    Program.run_loop (SerialService.handle cfg)
      (fun counts e => setEntry counts (some e))
      (I := fun _ t rest =>
        t.Quiet ∧
          ((∃ e ∈ rest, e.key = []) ∨
            t.store.redis.lookup [] ≠ none))
      ?_ (x := noCounts) (s := s) ⟨hQuiet, Or.inl hMem⟩
  · rcases hLoop with ⟨counts, t, hRun, _, hMem | hWritten⟩
    · rcases hMem with ⟨e, he, _⟩
      cases he
    · rw [Program.loop_map]
      exact ⟨counts, t, hRun, hWritten⟩
  · intro counts t e rest hInv
    rcases hInv with ⟨hStill, hOr⟩
    refine
      ⟨_, _, run_setEntry counts e t,
        fun n => hStill (n + 1), ?_⟩
    have hRedis :
        (SerialService.handle cfg
            (.set e.key e.value) t).2.store.redis =
          t.store.redis.set t.current.clock cfg.l2TTL e.key
            e.value := by
      simp only [SerialService.handle, SerialService.after,
        CacheStore.set, CacheStore.l2Set, L2Cache.set]
      rw [hStill 0]
      rfl
    rw [hRedis]
    by_cases hKey : e.key = []
    · apply Or.inr
      rw [hKey, Redis.set_lookup_self]
      intro hNone
      cases hNone
    · rw [Redis.set_lookup_ne _ _ _ _ (Ne.symm hKey)]
      rcases hOr with ⟨other, hOther, hNil⟩ | hWritten
      · rcases List.mem_cons.mp hOther with rfl | hRest
        · exact absurd hNil hKey
        · exact Or.inl ⟨other, hRest, hNil⟩
      · exact Or.inr hWritten

/- `Set` never writes under the empty key. -/
theorem run_setEach_nilKey
    {entries : List KeyValue}
    {s : SerialService}
    (hNone : s.store.redis.lookup [] = none) :
    ∃ results t,
      Program.run (SerialService.handle cfg)
          (setEach entries) s =
        some (results, t) ∧
        t.store.redis.lookup [] = none := by
  have hLoop :=
    Program.run_loop (SerialService.handle cfg)
      (fun results (e : KeyValue) =>
        (Grpc.set e.key e.value).bind
          (fun result => .ret (results ++ [result])))
      (I := fun _ t _ => t.store.redis.lookup [] = none)
      ?_ (x := []) (s := s) hNone (l := entries)
  · exact hLoop
  · intro results t e rest hStill
    by_cases hKey : e.key = []
    · refine
        ⟨results ++ [.failed .keyRequired], t, ?_, hStill⟩
      rw [Program.run_bind, hKey, run_set_nil]
      rfl
    · have hRun := @run_set cfg e.key e.value t hKey
      refine
        ⟨results ++
            [written
              (SerialService.handle cfg
                (.set e.key e.value) t).1],
          (SerialService.handle cfg
            (.set e.key e.value) t).2, ?_, ?_⟩
      · rw [Program.run_bind, hRun]
        rfl
      have hNe := Ne.symm hKey
      exact
        (L2Cache.lookup_set_ne t.store.redis _ _ e.value _
          hNe).trans hStill

/- A `Get` in which nothing fails has a value. -/
theorem handle_get_of_quiet
    {s : SerialService}
    (hQuiet : s.Quiet)
    (key : Key) :
    ∃ value,
      (SerialService.handle cfg (.get key) s).1 =
        .ok value := by
  have hResult :=
    CacheStore.get_result cfg s.current key (s.inputs 0).get
  rw [hQuiet 0] at hResult
  have hSame :
      (SerialService.handle cfg (.get key) s).1 =
        (s.current.get cfg key quietInput.get).1 := by
    simp only [SerialService.handle]
    rw [hQuiet 0]
  rw [hSame, hResult]
  cases s.current.tierAnswer key quietInput.get.l2Get with
  | some value => exact ⟨value, rfl⟩
  | none => exact ⟨[1], rfl⟩

/- Where nothing fails, a batch finds every key. -/
theorem run_getLoop_of_quiet
    {keys : List Key}
    {s : SerialService}
    (hQuiet : s.Quiet) :
    ∃ batch t,
      Program.run (SerialService.handle cfg)
          (Program.loop getEntry emptyBatch keys) s =
        some (batch, t) ∧
        ∀ key entry,
          batch.entries.lookup key = some entry →
            entry.found = true := by
  have hLoop :=
    Program.run_loop (SerialService.handle cfg) getEntry
      (I := fun batch t _ =>
        t.Quiet ∧
          ∀ key entry,
            batch.entries.lookup key = some entry →
              entry.found = true)
      ?_ (x := emptyBatch) (s := s)
      ⟨hQuiet, fun key entry hNone => by cases hNone⟩
      (l := keys)
  · rcases hLoop with ⟨batch, t, hRun, _, hAll⟩
    exact ⟨batch, t, hRun, hAll⟩
  · intro batch t key rest hInv
    rcases hInv with ⟨hStill, hAll⟩
    refine
      ⟨_, _, run_getEntry batch key t,
        fun n => hStill (n + 1), ?_⟩
    rcases @handle_get_of_quiet cfg t hStill key with
      ⟨value, hValue⟩
    rw [hValue]
    intro other entry hLookup
    rcases Table.lookup_insert_cases hLookup with
      ⟨_, rfl⟩ | ⟨_, hOld⟩
    · rfl
    · exact hAll other entry hOld

/- `Get` never succeeds for the empty key. -/
theorem run_getEach_nilKey
    {keys : List Key}
    (s : SerialService) :
    ∃ answers t,
      Program.run (SerialService.handle cfg) (getEach keys)
          s =
        some (answers, t) ∧
        ∀ answer,
          answers.lookup [] = some answer →
            answer.value? = none := by
  have hLoop :=
    Program.run_loop (SerialService.handle cfg)
      (fun answers (key : Key) =>
        (Grpc.get key).bind
          (fun answer => .ret ((key, answer) :: answers)))
      (I := fun answers _ _ =>
        ∀ answer,
          List.lookup [] answers = some answer →
            answer.value? = none)
      ?_ (x := []) (s := s)
      (fun answer hNone => by cases hNone) (l := keys)
  · exact hLoop
  · intro answers t key rest hAll
    by_cases hKey : key = []
    · refine
        ⟨(key, .failed .keyRequired) :: answers, t, ?_, ?_⟩
      · rw [hKey]
        rfl
      · intro answer hLookup
        rw [hKey, List.lookup_cons_self] at hLookup
        cases hLookup
        rfl
    · rcases @run_get cfg key t hKey with ⟨answer, hRun, _⟩
      refine
        ⟨(key, answer) :: answers,
          (SerialService.handle cfg (.get key) t).2, ?_, ?_⟩
      · rw [Program.run_bind, hRun]
        rfl
      · intro found hLookup
        rw [List.lookup_cons,
          beq_false_of_ne (Ne.symm hKey)] at hLookup
        exact hAll found hLookup

end CacheServer

------------------------------------------------------------
-- When Batches Agree With Single Calls
------------------------------------------------------------

namespace CacheServer

open Grpc

variable {cfg : ManagerConfig}
variable {entries : List KeyValue}
variable {keys : List Key}

theorem batchSetAgrees_of_keys
    (s : SerialService)
    (hKeys : ∀ e ∈ entries, e.key ≠ [])
    (hLen : entries.length < 2 ^ 31) :
    BatchSetAgrees cfg s entries := by
  rcases @run_setLoops cfg entries s hKeys with
    ⟨successes, errors, results, t, hLoop, hEach, hCount,
      hSum, _⟩
  refine
    ⟨counted successes errors, results, t, t, ?_, hEach, rfl,
      rfl, ?_⟩
  · rw [run_batchSet, hLoop]
    rfl
  · rw [← hCount]
    exact Int32.toInt_ofNat_of_lt (by omega)

theorem batchGetAgrees_of_keys
    (s : SerialService)
    (hKeys : ∀ key ∈ keys, key ≠ []) :
    BatchGetAgrees cfg s keys := by
  rcases @run_getLoops cfg keys s hKeys with
    ⟨batch, answers, t, hLoop, hEach, hAll⟩
  refine ⟨batch, answers, t, t, ?_, hEach, rfl, rfl, hAll⟩
  rw [run_batchGet, hLoop]
  rfl

/- An empty key is written by the batch only. -/
theorem keys_of_batchSetAgrees
    (h : BatchSetAgrees cfg quietService entries) :
    ∀ e ∈ entries, e.key ≠ [] := by
  intro e he hNil
  rcases h with
    ⟨counts, results, t, u, hBatch, hEach, _, hRedis, _⟩
  have hQuiet : quietService.Quiet := fun _ => rfl
  rcases @run_setLoop_nilKey cfg entries quietService hQuiet
    ⟨e, he, hNil⟩ with ⟨counts', t', hLoop, hWritten⟩
  rcases @run_setEach_nilKey cfg entries quietService rfl
    with ⟨results', u', hEach', hNone⟩
  rw [run_batchSet, hLoop] at hBatch
  cases hBatch
  rw [hEach] at hEach'
  cases hEach'
  rw [hRedis] at hWritten
  exact hWritten hNone

/- Counters of 32 bits do not count longer lists. -/
theorem length_of_batchSetAgrees
    (h : BatchSetAgrees cfg quietService entries)
    (hKeys : ∀ e ∈ entries, e.key ≠ []) :
    entries.length < 2 ^ 31 := by
  rcases h with
    ⟨counts, results, t, u, hBatch, hEach, _, _, hCount⟩
  rcases @run_setLoops cfg entries quietService hKeys with
    ⟨successes, errors, results', t', hLoop, hEach', hSame,
      hSum, hErrors⟩
  have hZero : errors = 0 := hErrors (fun _ => rfl)
  rw [hEach] at hEach'
  cases hEach'
  rw [← hSame] at hCount
  have hBound := counts.successCount.toInt_lt
  omega

/- An empty key is found by the batch only. -/
theorem keys_of_batchGetAgrees
    (h : BatchGetAgrees cfg quietService keys) :
    ∀ key ∈ keys, key ≠ [] := by
  intro key hMem hNil
  subst hNil
  rcases h with ⟨batch, answers, t, u, hBatch, hEach, _, _, hAll⟩
  have hQuiet : quietService.Quiet := fun _ => rfl
  rcases @run_getLoop_of_quiet cfg keys quietService hQuiet
    with ⟨batch', t', hLoop, hFound⟩
  rcases @run_getEach_nilKey cfg keys quietService with
    ⟨answers', u', hEach', hNone⟩
  rw [run_batchGet, hLoop] at hBatch
  cases hBatch
  rw [hEach] at hEach'
  cases hEach'
  rcases hAll [] hMem with ⟨entry, answer, hEntry, hAnswer, hIff⟩
  have hValue :=
    (hIff entry.value).mp ⟨hFound [] entry hEntry, rfl⟩
  rw [hNone answer hAnswer] at hValue
  cases hValue

/-
  In every reachable state, whatever the calls do, batches do
  what their single calls do, exactly if no key is empty and
  the entries can be counted in 32 bits.
-/
theorem batches_agree_iff
    (entries : List KeyValue)
    (keys : List Key) :
    (∀ cfg s,
      ReachableStore cfg s.store →
        BatchSetAgrees cfg s entries ∧
          BatchGetAgrees cfg s keys) ↔
      (∀ e ∈ entries, e.key ≠ []) ∧
        entries.length < 2 ^ 31 ∧ ∀ key ∈ keys, key ≠ [] := by
  constructor
  · intro h
    have hFresh :
        ReachableStore { useSF := true, l2TTL := 60 }
          quietService.store :=
      ⟨1000, 5, ∅, 0, _, Machine.Reaches.refl _, rfl⟩
    rcases h _ _ hFresh with ⟨hSets, hGets⟩
    have hKeys := keys_of_batchSetAgrees hSets
    exact
      ⟨hKeys, length_of_batchSetAgrees hSets hKeys,
        keys_of_batchGetAgrees hGets⟩
  · intro h cfg s _
    rcases h with ⟨hEntries, hLen, hKeys⟩
    exact
      ⟨batchSetAgrees_of_keys s hEntries hLen,
        batchGetAgrees_of_keys s hKeys⟩

/- `BatchSet` stores under the empty key, `Set` refuses it. -/
theorem batches_differ :
    ¬ ∀ (entries : List KeyValue) (keys : List Key)
        (cfg : ManagerConfig) (s : SerialService),
        ReachableStore cfg s.store →
          BatchSetAgrees cfg s entries ∧
            BatchGetAgrees cfg s keys := by
  intro h
  have hAgrees :=
    (h [{ key := [], value := [5] }] []
      { useSF := true, l2TTL := 60 } quietService
      ⟨1000, 5, ∅, 0, _, Machine.Reaches.refl _, rfl⟩).1
  exact
    keys_of_batchSetAgrees hAgrees _ (List.mem_singleton_self _)
      rfl

end CacheServer
