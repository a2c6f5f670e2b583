import HotIndex.Bench.ExecuteQuery
import HotIndex.Lib.Fallible
import HotIndex.Lib.Strided

/-!
# Measuring Queries

The query side of `decibel-hotindex-bench`: `measure_queries` warms up, spawns its workers and
merges what they count. Worker `w` executes the iterations `w`, `w + concurrency`, and so on, so
together the workers execute each iteration once (`measureQueries_partition`), and which
records a sequential schedule executes does not depend on the number of workers.

Latencies and rates are not modelled, and neither is the floating-point curve of the zipf-like
pattern: a parameter stands for it.
-/

namespace HotIndex

open Lib

/-- The number of values of a `usize`. -/
def usizeSize : Nat := 2 ^ 64

/-! ## Choosing a record -/

structure DeterministicRng where
  state : UInt64
  deriving DecidableEq, Repr

/-- `seed_from_string` -/
def seedFromString (seed : String) : UInt64 :=
  (asBytes seed).foldl (fun state byte => (state ^^^ byte.toUInt64) * 0x00000100000001b3)
    0xcbf29ce484222325

namespace DeterministicRng

def new (seed : UInt64) : DeterministicRng where
  state := if seed = 0 then 1 else seed

def nextU64 (rng : DeterministicRng) : UInt64 × DeterministicRng :=
  let state := rng.state * 6364136223846793005 + 1
  (state, ⟨state⟩)

/-- `next_usize`. A range of one index is not drawn from. -/
def nextUsize (rng : DeterministicRng) (upper : Nat) : Nat × DeterministicRng :=
  if upper ≤ 1 then (0, rng)
  else
    let (value, rng) := rng.nextU64
    (value.toNat % upper, rng)

/-- `next_zipf_like`. The curve takes the bits that are drawn to an index of the range. -/
def nextZipfLike (curve : UInt64 → Nat → Nat) (rng : DeterministicRng) (upper : Nat) :
    Nat × DeterministicRng :=
  if upper ≤ 1 then (0, rng)
  else
    let (value, rng) := rng.nextU64
    (min (curve (value >>> 11) upper) (upper - 1), rng)

end DeterministicRng

section Measure

variable (curve : UInt64 → Nat → Nat)

/-- `query_index` -/
def queryIndex (accessPattern : String) (sequentialIdx corpusLen : Nat) (rng : DeterministicRng) :
    Except Fault (Nat × DeterministicRng) :=
  if accessPattern = "uniform" then .ok (rng.nextUsize corpusLen)
  else if accessPattern = "zipfian" then .ok (rng.nextZipfLike curve corpusLen)
  else if corpusLen = 0 then
    .error (.panic "attempt to calculate the remainder with a divisor of zero")
  else .ok (sequentialIdx % corpusLen, rng)

/-- `execute_query` on the record at an index. -/
def executeAt (engine : StorageReads) (corpus : List QueryCorpusRecord) (recordIdx : Nat) :
    Except Fault Unit :=
  match corpus[recordIdx]? with
  | none => .error (.panic "index out of bounds")
  | some record => executeQuery engine record

/-! ## Workers -/

/-- `validate_access_pattern` -/
def validateAccessPattern (accessPattern : String) : Except HotIndexError Unit :=
  if accessPattern = "sequential" ∨ accessPattern = "uniform" ∨ accessPattern = "zipfian" then
    .ok ()
  else .error (.config (s!"unsupported access pattern: {accessPattern}; expected sequential, " ++
    "uniform, or zipfian"))

/-- `validate_concurrency` -/
def validateConcurrency (iterations concurrency : Nat) : Except HotIndexError Unit :=
  if concurrency = 0 then .error (.config "--concurrency must be greater than zero")
  else if 0 < iterations ∧ iterations < concurrency then
    .error (.config (s!"--concurrency ({concurrency}) must be <= --iterations ({iterations})"))
  else .ok ()

structure QueryMeasureConfig where
  iterations : Nat
  warmup : Nat
  concurrency : Nat
  accessPattern : String
  seed : String

structure QueryWorkerInput where
  engine : StorageReads
  corpus : List QueryCorpusRecord
  iterations : Nat
  concurrency : Nat
  workerIdx : Nat
  accessPattern : String
  seed : String
  /-- No worker is spawned without concurrency -/
  concurrency_pos : 0 < concurrency

/-- `QueryWorkerResult`, without its histogram. -/
structure QueryWorkerResult where
  operations : UInt64
  errors : UInt64
  deriving DecidableEq, Repr

/-- Count an operation. -/
def QueryWorkerResult.count (result : QueryWorkerResult) (failed : Bool) : QueryWorkerResult where
  operations := result.operations + 1
  errors := if failed then result.errors + 1 else result.errors

/-- The loop of `measure_query_worker`, from the iteration `idx` on. -/
def measureFrom (input : QueryWorkerInput) (idx : Nat) (rng : DeterministicRng)
    (result : QueryWorkerResult) : Except Fault QueryWorkerResult :=
  if idx < input.iterations then
    match queryIndex curve input.accessPattern idx input.corpus.length rng with
    | .error fault => .error fault
    | .ok (recordIdx, rng) =>
      match resultIsErr (executeAt input.engine input.corpus recordIdx) with
      | .error fault => .error fault
      | .ok failed =>
        -- the next index is added up before it is compared
        if usizeSize ≤ idx + input.concurrency then
          .error (.panic "attempt to add with overflow")
        else measureFrom input (idx + input.concurrency) rng (result.count failed)
  else .ok result
termination_by input.iterations - idx
decreasing_by
  have := input.concurrency_pos
  omega

/-- The generator that a worker starts with. -/
def QueryWorkerInput.rng (input : QueryWorkerInput) : DeterministicRng :=
  .new (seedFromString s!"{input.seed}:{input.workerIdx}")

/-- `measure_query_worker` -/
def measureQueryWorker (input : QueryWorkerInput) : Except Fault QueryWorkerResult :=
  measureFrom curve input input.workerIdx input.rng { operations := 0, errors := 0 }

/-! ## All workers -/

/-- The warm-up of `measure_queries`: the first query that fails ends it. -/
def warmupQueries (engine : StorageReads) (corpus : List QueryCorpusRecord)
    (config : QueryMeasureConfig) : Except Fault Unit := do
  let _ ← (List.range config.warmup).foldlM (fun rng idx => do
    let (recordIdx, rng) ← queryIndex curve config.accessPattern idx corpus.length rng
    executeAt engine corpus recordIdx
    return rng) (DeterministicRng.new (seedFromString config.seed))

/-- Joining the workers in order. The first one that panicked ends it; another that nobody
joins makes the scope panic. -/
def joinWorkers : List (Except Fault QueryWorkerResult) → Except Fault (List QueryWorkerResult)
  | [] => .ok []
  | .ok result :: rest => do
    let results ← joinWorkers rest
    return result :: results
  | .error _ :: rest =>
    if rest.all (fun outcome => outcome.isOk) then
      .error (.error (.storage "query worker thread panicked"))
    else .error (.panic "a scoped thread panicked")

/-- `finish_query_results` -/
def finishQueryResults (results : List QueryWorkerResult) : BenchResult :=
  results.foldl (fun merged result =>
    { operations := merged.operations + result.operations
      errors := merged.errors + result.errors }) { operations := 0, errors := 0 }

theorem concurrency_pos_of_valid {iterations concurrency : Nat}
    (h : validateConcurrency iterations concurrency = .ok ()) : 0 < concurrency := by
  unfold validateConcurrency at h
  split_ifs at h with hzero
  omega

/-- What a worker is given. -/
def QueryMeasureConfig.worker (config : QueryMeasureConfig) (engine : StorageReads)
    (corpus : List QueryCorpusRecord) (hpos : 0 < config.concurrency) (workerIdx : Nat) :
    QueryWorkerInput where
  engine := engine
  corpus := corpus
  iterations := config.iterations
  concurrency := config.concurrency
  workerIdx := workerIdx
  accessPattern := config.accessPattern
  seed := config.seed
  concurrency_pos := hpos

/-- `measure_queries` -/
def measureQueries (engine : StorageReads) (corpus : List QueryCorpusRecord)
    (config : QueryMeasureConfig) : Except Fault BenchResult :=
  match validateAccessPattern config.accessPattern with
  | .error error => .error (.error error)
  | .ok () =>
    match h : validateConcurrency config.iterations config.concurrency with
    | .error error => .error (.error error)
    | .ok () => do
      warmupQueries curve engine corpus config
      let results ← joinWorkers ((List.range config.concurrency).map (fun workerIdx =>
        measureQueryWorker curve
          (config.worker engine corpus (concurrency_pos_of_valid h) workerIdx)))
      return finishQueryResults results

/-! ## What a worker executes -/

/-- The iterations of a worker, from `idx` on, each with the index of the record that it
executes. -/
def executionsFrom (input : QueryWorkerInput) (idx : Nat) (rng : DeterministicRng) :
    List (Nat × Nat) :=
  if idx < input.iterations then
    match queryIndex curve input.accessPattern idx input.corpus.length rng with
    | .error _ => []
    | .ok (recordIdx, rng) =>
      (idx, recordIdx) :: executionsFrom input (idx + input.concurrency) rng
  else []
termination_by input.iterations - idx
decreasing_by
  have := input.concurrency_pos
  omega

def QueryWorkerInput.executions (input : QueryWorkerInput) : List (Nat × Nat) :=
  executionsFrom curve input input.workerIdx input.rng

/-- The execution of a record returns an error. -/
def executionFails (engine : StorageReads) (corpus : List QueryCorpusRecord) (recordIdx : Nat) :
    Bool :=
  match executeAt engine corpus recordIdx with
  | .error (.error _) => true
  | _ => false

/-- The execution of a record panics. -/
def executionPanics (engine : StorageReads) (corpus : List QueryCorpusRecord) (recordIdx : Nat) :
    Bool :=
  match executeAt engine corpus recordIdx with
  | .error (.panic _) => true
  | _ => false

/-- The executions of all workers. -/
def QueryMeasureConfig.executions (config : QueryMeasureConfig) (engine : StorageReads)
    (corpus : List QueryCorpusRecord) (hpos : 0 < config.concurrency) : List (Nat × Nat) :=
  (List.range config.concurrency).flatMap fun workerIdx =>
    (config.worker engine corpus hpos workerIdx).executions curve

end Measure

section Workers

variable {curve : UInt64 → Nat → Nat}

/-- A corpus with a record always has one to choose. -/
theorem queryIndex_isOk {corpusLen : Nat} (hcorpus : 0 < corpusLen) (accessPattern : String)
    (idx : Nat) (rng : DeterministicRng) :
    ∃ recordIdx rng', queryIndex curve accessPattern idx corpusLen rng = .ok (recordIdx, rng') := by
  unfold queryIndex
  split_ifs with huniform hzipfian hempty
  · exact ⟨_, _, rfl⟩
  · exact ⟨_, _, rfl⟩
  · omega
  · exact ⟨_, _, rfl⟩

/-- The iterations of a worker are those of a strided loop. -/
theorem executionsFrom_fst {input : QueryWorkerInput} (hcorpus : 0 < input.corpus.length)
    (idx : Nat) (rng : DeterministicRng) :
    (executionsFrom curve input idx rng).map Prod.fst =
      strided input.concurrency input.concurrency_pos input.iterations idx := by
  fun_induction executionsFrom curve input idx rng with
  | case1 idx rng _ fault hchoice =>
    -- a non-empty corpus always has an index
    obtain ⟨_, _, hok⟩ := @queryIndex_isOk curve _ hcorpus input.accessPattern idx rng
    rw [hok] at hchoice
    cases hchoice
  | case2 idx rng hlt recordIdx rng' _ ih =>
    rw [List.map_cons, ih, strided.eq_def _ _ _ idx, if_pos hlt]
  | case3 idx rng hend => rw [List.map_nil, strided, if_neg hend]

/-- In order, the record of an iteration is its remainder by the length of the corpus. -/
theorem executionsFrom_sequential {input : QueryWorkerInput}
    (hpattern : input.accessPattern = "sequential") (hcorpus : 0 < input.corpus.length)
    (idx : Nat) (rng : DeterministicRng) :
    ∀ execution ∈ executionsFrom curve input idx rng,
      execution.2 = execution.1 % input.corpus.length := by
  fun_induction executionsFrom curve input idx rng with
  | case1 => simp
  | case2 idx rng _ recordIdx rng' hchoice ih =>
    refine List.forall_mem_cons.2 ⟨?_, ih⟩
    -- neither uniform nor Zipfian, so the index is the remainder
    rw [hpattern, queryIndex, if_neg (by decide), if_neg (by decide),
      if_neg (by omega), Except.ok.injEq, Prod.mk.injEq] at hchoice
    exact hchoice.1.symm
  | case3 => simp

/-- An execution panics, or the worker notes whether it fails. -/
theorem resultIsErr_executeAt (engine : StorageReads) (corpus : List QueryCorpusRecord)
    (recordIdx : Nat) :
    (executionPanics engine corpus recordIdx = true ∧
      ∃ fault, resultIsErr (executeAt engine corpus recordIdx) = .error fault) ∨
    (executionPanics engine corpus recordIdx = false ∧
      resultIsErr (executeAt engine corpus recordIdx) =
        .ok (executionFails engine corpus recordIdx)) := by
  unfold executionPanics executionFails
  rcases executeAt engine corpus recordIdx with (error | message) | _
  · exact .inr ⟨rfl, rfl⟩
  · exact .inl ⟨rfl, _, rfl⟩
  · exact .inr ⟨rfl, rfl⟩

/-- What a worker returns: it counts its executions and the ones that fail, unless one
panics. -/
theorem measureFrom_eq_ok_iff {input : QueryWorkerInput} (hcorpus : 0 < input.corpus.length)
    (hword : input.iterations + input.concurrency ≤ usizeSize) (idx : Nat)
    (rng : DeterministicRng) (result result' : QueryWorkerResult) :
    measureFrom curve input idx rng result = .ok result' ↔
      (∀ execution ∈ executionsFrom curve input idx rng,
        executionPanics input.engine input.corpus execution.2 = false) ∧
      result'.operations =
        result.operations + UInt64.ofNat (executionsFrom curve input idx rng).length ∧
      result'.errors = result.errors + UInt64.ofNat ((executionsFrom curve input idx rng).countP
        fun execution => executionFails input.engine input.corpus execution.2) := by
  fun_induction executionsFrom curve input idx rng generalizing result with
  | case1 idx rng _ fault hchoice =>
    obtain ⟨_, _, hok⟩ := @queryIndex_isOk curve _ hcorpus input.accessPattern idx rng
    rw [hok] at hchoice
    cases hchoice
  | case2 idx rng hlt recordIdx rng' hchoice ih =>
    have hroom : ¬ usizeSize ≤ idx + input.concurrency := by omega
    rw [measureFrom, if_pos hlt, hchoice, List.forall_mem_cons, List.length_cons,
      List.countP_cons, UInt64.ofNat_add, UInt64.ofNat_add]
    rcases resultIsErr_executeAt input.engine input.corpus recordIdx with
      ⟨hpanics, fault, hfault⟩ | ⟨hpanics, hnoted⟩
    · simp [hfault, hpanics]
    · simp only [hnoted, if_neg hroom, ih, hpanics, true_and, QueryWorkerResult.count]
      -- this execution is counted first by the loop and last by the lists
      cases executionFails input.engine input.corpus recordIdx <;>
        simp [add_assoc, add_comm (1 : UInt64)]
  | case3 idx rng hend =>
    rw [measureFrom, if_neg hend, Except.ok.injEq]
    constructor
    · rintro rfl
      simp
    · rintro ⟨-, hoperations, herrors⟩
      cases result
      cases result'
      simp only [QueryWorkerResult.mk.injEq] at hoperations herrors ⊢
      simp [hoperations, herrors]

theorem measureQueryWorker_eq_ok_iff {input : QueryWorkerInput}
    (hcorpus : 0 < input.corpus.length)
    (hword : input.iterations + input.concurrency ≤ usizeSize) (result : QueryWorkerResult) :
    measureQueryWorker curve input = .ok result ↔
      (∀ execution ∈ input.executions curve,
        executionPanics input.engine input.corpus execution.2 = false) ∧
      result =
        { operations := UInt64.ofNat (input.executions curve).length
          errors := UInt64.ofNat ((input.executions curve).countP
            fun execution => executionFails input.engine input.corpus execution.2) } := by
  unfold measureQueryWorker QueryWorkerInput.executions
  -- the loop starts with both counters at zero
  rw [measureFrom_eq_ok_iff hcorpus hword, zero_add, zero_add]
  refine and_congr_right fun _ => ?_
  cases result
  rw [QueryWorkerResult.mk.injEq]

/-! ## What all workers execute -/

section All

variable {engine : StorageReads} {corpus : List QueryCorpusRecord} {config : QueryMeasureConfig}

/-- The workers visit every iteration once. -/
theorem executions_fst_perm (hpos : 0 < config.concurrency) (hcorpus : corpus ≠ []) :
    ((config.executions curve engine corpus hpos).map Prod.fst).Perm
      (List.range config.iterations) := by
  -- worker by worker, the iterations are those with its own remainder
  have hiterations : (config.executions curve engine corpus hpos).map Prod.fst =
      (List.range config.concurrency).flatMap
        (strided config.concurrency hpos config.iterations) := by
    unfold QueryMeasureConfig.executions
    rw [List.map_flatMap]
    refine List.flatMap_congr fun workerIdx _ => ?_
    exact @executionsFrom_fst curve (config.worker engine corpus hpos workerIdx)
      (List.length_pos_iff.2 hcorpus) workerIdx _
  rw [hiterations]
  exact flatMap_strided_perm hpos config.iterations

theorem length_executions (hpos : 0 < config.concurrency) (hcorpus : corpus ≠ []) :
    (config.executions curve engine corpus hpos).length = config.iterations := by
  have hlength := (@executions_fst_perm curve engine _ _ hpos hcorpus).length_eq
  rwa [List.length_map, List.length_range] at hlength

/-- How often a sequential schedule executes the record at an index. -/
theorem count_executions_sequential (hpos : 0 < config.concurrency) (hcorpus : corpus ≠ [])
    (hpattern : config.accessPattern = "sequential") {recordIdx : Nat}
    (hrecord : recordIdx < corpus.length) :
    ((config.executions curve engine corpus hpos).map Prod.snd).count recordIdx =
      config.iterations / corpus.length +
        if recordIdx < config.iterations % corpus.length then 1 else 0 := by
  have hrecords : (config.executions curve engine corpus hpos).map Prod.snd =
      ((config.executions curve engine corpus hpos).map Prod.fst).map (· % corpus.length) := by
    rw [List.map_map]
    refine List.map_congr_left fun execution hexecution => ?_
    obtain ⟨workerIdx, -, hworker⟩ := List.mem_flatMap.1 hexecution
    exact @executionsFrom_sequential curve (config.worker engine corpus hpos workerIdx) hpattern
      (List.length_pos_iff.2 hcorpus) workerIdx _ execution hworker
  -- the workers share out the iterations, so each comes once
  rw [hrecords, ((executions_fst_perm hpos hcorpus).map _).count_eq,
    count_map_mod_range config.iterations hrecord]

/-- Joining succeeds exactly if every worker returns. -/
theorem joinWorkers_map_eq_ok_iff {α : Type} {worker : α → Except Fault QueryWorkerResult}
    {returns : α → Prop} {returned : α → QueryWorkerResult} {l : List α}
    (h : ∀ a ∈ l, ∀ result, worker a = .ok result ↔ returns a ∧ result = returned a)
    (results : List QueryWorkerResult) :
    joinWorkers (l.map worker) = .ok results ↔
      (∀ a ∈ l, returns a) ∧ results = l.map returned := by
  induction l generalizing results with
  | nil =>
    rw [List.map_nil, joinWorkers, Except.ok.injEq]
    simp [eq_comm]
  | cons a l ih =>
    obtain ⟨hfirst, hrest⟩ := List.forall_mem_cons.1 h
    rw [List.map_cons, List.forall_mem_cons]
    cases hworker : worker a with
    | error fault =>
      -- the first worker panicked, so nothing is returned
      have hpanics : ¬ returns a := by
        intro hreturns
        rw [(hfirst _).2 ⟨hreturns, rfl⟩] at hworker
        cases hworker
      rw [joinWorkers]
      refine ⟨fun hjoin => ?_, fun hall => absurd hall.1.1 hpanics⟩
      split_ifs at hjoin
    | ok result =>
      obtain ⟨hreturns, hresult⟩ := (hfirst result).1 hworker
      rw [joinWorkers, bind_eq_ok_iff, hresult, List.map_cons]
      constructor
      · rintro ⟨rest, hjoin, hwhole⟩
        obtain ⟨hall, rfl⟩ := (ih hrest rest).1 hjoin
        exact ⟨⟨hreturns, hall⟩, (Except.ok.inj hwhole).symm⟩
      · rintro ⟨⟨-, hall⟩, rfl⟩
        exact ⟨_, (ih hrest _).2 ⟨hall, rfl⟩, rfl⟩

/-- Merging adds up what the workers counted. -/
theorem finishQueryResults_eq (results : List QueryWorkerResult) :
    finishQueryResults results =
      { operations := (results.map (·.operations)).sum
        errors := (results.map (·.errors)).sum } := by
  -- whatever was counted before stays in front
  have hfold : ∀ merged : BenchResult, results.foldl (fun merged result =>
      { operations := merged.operations + result.operations
        errors := merged.errors + result.errors : BenchResult }) merged =
      { operations := merged.operations + (results.map (·.operations)).sum
        errors := merged.errors + (results.map (·.errors)).sum } := by
    induction results with
    | nil => simp
    | cons result results ih =>
      intro merged
      rw [List.foldl_cons, ih]
      simp [add_assoc]
  unfold finishQueryResults
  rw [hfold]
  simp

theorem sum_map_ofNat {α : Type} (f : α → Nat) (l : List α) :
    (l.map fun a => UInt64.ofNat (f a)).sum = UInt64.ofNat (l.map f).sum := by
  induction l with
  | nil => rfl
  | cons a l ih => rw [List.map_cons, List.sum_cons, ih, List.map_cons, List.sum_cons,
      UInt64.ofNat_add]

/-- `measure_queries` returns if its warm-up does and no execution panics, and then it has
counted all executions and those that failed. -/
theorem measureQueries_eq_ok_iff
    (hpattern : validateAccessPattern config.accessPattern = .ok ())
    (hpos : 0 < config.concurrency) (hle : config.concurrency ≤ config.iterations)
    (hword : config.iterations + config.concurrency ≤ usizeSize) (hcorpus : corpus ≠ [])
    (result : BenchResult) :
    measureQueries curve engine corpus config = .ok result ↔
      warmupQueries curve engine corpus config = .ok () ∧
      (∀ execution ∈ config.executions curve engine corpus hpos,
        executionPanics engine corpus execution.2 = false) ∧
      result =
        { operations := UInt64.ofNat config.iterations
          errors := UInt64.ofNat ((config.executions curve engine corpus hpos).countP
            fun execution => executionFails engine corpus execution.2) } := by
  have hvalid : validateConcurrency config.iterations config.concurrency = .ok () := by
    rw [validateConcurrency, if_neg (by omega), if_neg (by omega)]
  have hlength := List.length_pos_iff.2 hcorpus
  -- every worker returns its counts unless one of its executions panics
  have hjoin := fun results => joinWorkers_map_eq_ok_iff
    (fun workerIdx (_ : workerIdx ∈ List.range config.concurrency) result =>
      @measureQueryWorker_eq_ok_iff curve (config.worker engine corpus hpos workerIdx) hlength
        hword result) results
  unfold measureQueries
  rw [hpattern]
  dsimp only
  split
  · rename_i error hinvalid
    rw [hvalid] at hinvalid
    cases hinvalid
  · rw [bind_eq_ok_iff]
    simp only [bind_eq_ok_iff]
    have hmerged : finishQueryResults ((List.range config.concurrency).map fun workerIdx =>
        { operations := UInt64.ofNat
            ((config.worker engine corpus hpos workerIdx).executions curve).length
          errors := UInt64.ofNat
            (((config.worker engine corpus hpos workerIdx).executions curve).countP
              fun execution => executionFails engine corpus execution.2) }) =
        { operations := UInt64.ofNat config.iterations
          errors := UInt64.ofNat ((config.executions curve engine corpus hpos).countP
            fun execution => executionFails engine corpus execution.2) } := by
      rw [finishQueryResults_eq, List.map_map, List.map_map]
      congr 1
      · rw [← length_executions hpos hcorpus]
        unfold QueryMeasureConfig.executions
        rw [List.length_flatMap, ← sum_map_ofNat]
        rfl
      · unfold QueryMeasureConfig.executions
        rw [List.countP_flatMap, ← sum_map_ofNat]
        rfl
    constructor
    · rintro ⟨_, hwarm, results, hresults, hresult⟩
      obtain ⟨hall, rfl⟩ := (hjoin results).1 hresults
      refine ⟨hwarm, fun execution hexecution => ?_, ?_⟩
      · obtain ⟨workerIdx, hworker, hmem⟩ := List.mem_flatMap.1 hexecution
        exact hall workerIdx hworker execution hmem
      · rw [← Except.ok.inj hresult]
        exact hmerged
    · rintro ⟨hwarm, hall, rfl⟩
      refine ⟨(), hwarm, _, (hjoin _).2 ⟨fun workerIdx hworker execution hmem => ?_, rfl⟩, ?_⟩
      · exact hall execution (List.mem_flatMap.2 ⟨workerIdx, hworker, hmem⟩)
      · exact congrArg Except.ok hmerged

/-- **Workers partition the schedule.** The workers together visit every iteration once. If
`measure_queries` returns, which it does unless its warm-up fails or an execution panics, it
reports all iterations as operations and as many errors as executions failed. Under the
sequential pattern the record at each index is executed the floor or the ceiling of
`iterations / corpus.len()` times, however many workers there are. -/
theorem measureQueries_partition (curve : UInt64 → Nat → Nat) (engine : StorageReads)
    {corpus : List QueryCorpusRecord} {config : QueryMeasureConfig}
    (hpattern : validateAccessPattern config.accessPattern = .ok ())
    (hpos : 0 < config.concurrency) (hle : config.concurrency ≤ config.iterations)
    (hword : config.iterations + config.concurrency ≤ usizeSize) (hcorpus : corpus ≠ []) :
    let executions := config.executions curve engine corpus hpos
    (executions.map Prod.fst).Perm (List.range config.iterations) ∧
    (∀ result, measureQueries curve engine corpus config = .ok result →
      result.operations.toNat = config.iterations ∧
        result.errors.toNat = executions.countP
          fun execution => executionFails engine corpus execution.2) ∧
    ((∃ result, measureQueries curve engine corpus config = .ok result) ↔
      warmupQueries curve engine corpus config = .ok () ∧
        ∀ execution ∈ executions, executionPanics engine corpus execution.2 = false) ∧
    (config.accessPattern = "sequential" → ∀ recordIdx < corpus.length,
      (executions.map Prod.snd).count recordIdx =
          config.iterations / corpus.length +
            (if recordIdx < config.iterations % corpus.length then 1 else 0) ∧
        ((executions.map Prod.snd).count recordIdx = config.iterations / corpus.length ∨
          (executions.map Prod.snd).count recordIdx =
            (config.iterations + corpus.length - 1) / corpus.length)) := by
  have hreturns := fun result =>
    @measureQueries_eq_ok_iff curve engine corpus config hpattern hpos hle hword hcorpus result
  have hfits : ∀ m ≤ config.iterations, (UInt64.ofNat m).toNat = m := by
    intro m hm
    apply UInt64.toNat_ofNat_of_lt'
    rw [UInt64.size]
    unfold usizeSize at hword
    omega
  refine ⟨executions_fst_perm hpos hcorpus, ?_, ?_, ?_⟩
  · intro result hresult
    obtain ⟨-, -, rfl⟩ := (hreturns result).1 hresult
    refine ⟨hfits _ le_rfl, hfits _ ?_⟩
    exact List.countP_le_length.trans_eq (length_executions hpos hcorpus)
  · constructor
    · rintro ⟨result, hresult⟩
      obtain ⟨hwarm, hall, -⟩ := (hreturns result).1 hresult
      exact ⟨hwarm, hall⟩
    · rintro ⟨hwarm, hall⟩
      exact ⟨_, (hreturns _).2 ⟨hwarm, hall, rfl⟩⟩
  · intro hsequential recordIdx hrecord
    have hcount := @count_executions_sequential curve engine corpus config hpos hcorpus
      hsequential recordIdx hrecord
    refine ⟨hcount, ?_⟩
    rw [hcount]
    split_ifs with hlow
    · -- a remainder is left, so the ceiling is one more
      exact .inr (ceil_div_of_mod_pos (List.length_pos_iff.2 hcorpus) (by omega)).symm
    · exact .inl (Nat.add_zero _)

/-- An engine that holds nothing, and a corpus of two point queries. -/
def emptyReads : StorageReads := MemoryEngine.empty.reads (.ofOps []) Sha256.digest

def twoVersions : List QueryCorpusRecord :=
  [{ queryKind := .getTxByVersion, txVersion := some 7 },
    { queryKind := .getTxByVersion, txVersion := some 8 }]

/-- Five iterations in order by two workers. -/
def fiveIterations : QueryMeasureConfig where
  iterations := 5
  warmup := 0
  concurrency := 2
  accessPattern := "sequential"
  seed := "test"

/-- Every version is missed. The first record is executed three times, the second twice. -/
theorem measureQueries_partition_fiveIterations :
    ((fiveIterations.executions (fun _ _ => 0) emptyReads twoVersions (by decide)).map
        Prod.snd).count 0 = 3 ∧
      ((fiveIterations.executions (fun _ _ => 0) emptyReads twoVersions (by decide)).map
        Prod.snd).count 1 = 2 := by
  obtain ⟨-, -, -, hcounts⟩ := @measureQueries_partition (fun _ _ => 0) emptyReads twoVersions
    fiveIterations (by decide) (by decide) (by decide) (by decide) (by decide)
  exact ⟨(hcounts rfl 0 (by decide)).1, (hcounts rfl 1 (by decide)).1⟩

end All

end Workers

end HotIndex
