import HotIndex.Bench.ServingBench
import HotIndex.Lib.Simulation
import Mathlib.Algebra.BigOperators.Group.List.Basic

/-!
# Reading Under Ingest

`measure_read_under_ingest` of `decibel-hotindex-bench` on the memory engine: a thread replays
the rows while the main thread warms up and its workers query the engine. A put holds the lock of
the engine for its whole time. A query takes what it needs of the rows while it holds the lock,
and sorts or adds up this snapshot behind it, so its answer is that of the engine at one moment.
What the threads do together is an interleaving of puts and queries (`ReadIngestStep`).

Every schedule ends, with all rows in the engine; each query is answered from the rows that a
prefix of the replay has put, and the result counts each iteration once
(`readUnderIngest_safe`). How many queries fail is up to the scheduler, and a warm-up that gets
ahead of the replay ends the benchmark (`readUnderIngest_races`).
-/

namespace HotIndex

open Lib Relation

/-! ## Threads -/

/-- An iteration that a worker has executed. Nothing reads it but the results below. -/
structure Execution where
  iteration : Nat
  recordIdx : Nat
  failed : Bool

/-- The local variables of `measure_query_worker`, and its executions so far. -/
structure WorkerState where
  idx : Nat
  rng : DeterministicRng
  result : QueryWorkerResult
  executions : List Execution

/-- Where the main thread is. A worker that panicked is an error. -/
inductive ReadPhase where
  | validate
  | warmup (idx : Nat) (rng : DeterministicRng)
  | measure (workers : Nat → Except Fault WorkerState)
  /-- The queries are over, and the ingest thread is waited for -/
  | closing (outcome : Except Fault BenchResult)
  | returned (outcome : Except Fault BenchResult)

structure ReadIngestState where
  engine : MemoryEngine
  /-- What the ingest thread has still to put -/
  rest : List PutOp
  main : ReadPhase

section System

variable (curve : UInt64 → Nat → Nat) (corpus : List QueryCorpusRecord)
  (config : QueryMeasureConfig)

def WorkerState.start (workerIdx : Nat) : WorkerState where
  idx := workerIdx
  rng := .new (seedFromString s!"{config.seed}:{workerIdx}")
  result := { operations := 0, errors := 0 }
  executions := []

/-- One round of the loop of `measure_query_worker`. -/
def WorkerState.execute (engine : StorageReads) (worker : WorkerState) :
    Except Fault WorkerState :=
  match queryIndex curve config.accessPattern worker.idx corpus.length worker.rng with
  | .error fault => .error fault
  | .ok (recordIdx, rng) =>
    match resultIsErr (executeAt engine corpus recordIdx) with
    | .error fault => .error fault
    | .ok failed =>
      if usizeSize ≤ worker.idx + config.concurrency then
        .error (.panic "attempt to add with overflow")
      else .ok {
        idx := worker.idx + config.concurrency
        rng := rng
        result := worker.result.count failed
        executions := worker.executions ++ [⟨worker.idx, recordIdx, failed⟩] }

/-- The worker has left its loop. -/
def WorkerFinished : Except Fault WorkerState → Prop
  | .error _ => True
  | .ok worker => config.iterations ≤ worker.idx

/-- The checks of `measure_queries`. -/
def QueryMeasureConfig.validated : ReadPhase :=
  match validateAccessPattern config.accessPattern with
  | .error error => .closing (.error (.error error))
  | .ok () =>
    match validateConcurrency config.iterations config.concurrency with
    | .error error => .closing (.error (.error error))
    | .ok () => .warmup 0 (.new (seedFromString config.seed))

/-- One round of the warm-up, behind which the workers are spawned. -/
def warmupNext (engine : StorageReads) (idx : Nat) (rng : DeterministicRng) : ReadPhase :=
  if idx < config.warmup then
    match queryIndex curve config.accessPattern idx corpus.length rng with
    | .error fault => .closing (.error fault)
    | .ok (recordIdx, rng) =>
      match executeAt engine corpus recordIdx with
      | .error fault => .closing (.error fault)
      | .ok () => .warmup (idx + 1) rng
  else .measure fun workerIdx => .ok (.start config workerIdx)

/-- `finish_query_results` of the workers that are joined. -/
def joinedResult (workers : Nat → Except Fault WorkerState) : Except Fault BenchResult :=
  (joinWorkers ((List.range config.concurrency).map fun workerIdx =>
    (workers workerIdx).map (·.result))).map finishQueryResults

variable (json : SerdeJson) (sha256 : Bytes → Bytes)

/-- One step of one of the threads. -/
inductive ReadIngestStep : ReadIngestState → ReadIngestState → Prop
  /-- The ingest thread puts its next row -/
  | ingest {s : ReadIngestState} {op : PutOp} {rest : List PutOp} (hrest : s.rest = op :: rest) :
      ReadIngestStep s { s with engine := s.engine.put op, rest := rest }
  | validate {s : ReadIngestState} (hmain : s.main = .validate) :
      ReadIngestStep s { s with main := config.validated }
  | warmup {s : ReadIngestState} {idx : Nat} {rng : DeterministicRng}
      (hmain : s.main = .warmup idx rng) :
      ReadIngestStep s
        { s with main := warmupNext curve corpus config (s.engine.reads json sha256) idx rng }
  /-- A worker executes its next iteration -/
  | work {s : ReadIngestState} {workers : Nat → Except Fault WorkerState} {workerIdx : Nat}
      {worker : WorkerState} (hmain : s.main = .measure workers)
      (hspawned : workerIdx < config.concurrency) (hworker : workers workerIdx = .ok worker)
      (hlt : worker.idx < config.iterations) :
      ReadIngestStep s { s with main := .measure (Function.update workers workerIdx
        (worker.execute curve corpus config (s.engine.reads json sha256))) }
  | join {s : ReadIngestState} {workers : Nat → Except Fault WorkerState}
      (hmain : s.main = .measure workers)
      (hfinished : ∀ workerIdx < config.concurrency, WorkerFinished config (workers workerIdx)) :
      ReadIngestStep s { s with main := .closing (joinedResult config workers) }
  | close {s : ReadIngestState} {outcome : Except Fault BenchResult}
      (hmain : s.main = .closing outcome) (hrest : s.rest = []) :
      ReadIngestStep s { s with main := .returned outcome }

/-- The threads at their start, on a fresh engine. -/
def ReadIngestState.start (rows : IngestRows) : ReadIngestState where
  engine := .empty
  rest := rows.ops
  main := .validate

end System

/-! ## What the main thread keeps -/

section Main

variable (config : QueryMeasureConfig) (hpos : 0 < config.concurrency) (Q : Execution → Prop)
  (F : Fault → Prop)

/-- A worker has executed the first of its iterations, with answers that satisfy `Q`, and has
counted them. -/
structure Worked (workerIdx : Nat) (worker : WorkerState) : Prop where
  visits : worker.executions.map Execution.iteration ++
    strided config.concurrency hpos config.iterations worker.idx =
      strided config.concurrency hpos config.iterations workerIdx
  answers : ∀ execution ∈ worker.executions, Q execution
  operations : worker.result.operations = UInt64.ofNat worker.executions.length
  errors : worker.result.errors = UInt64.ofNat (worker.executions.countP Execution.failed)

/-- The outcome is a fault with `F`, or the counts of executions with `Q`, one for each
iteration. -/
def Reported : Except Fault BenchResult → Prop
  | .error fault => F fault
  | .ok result => ∃ executions : List Execution,
      (executions.map Execution.iteration).Perm (List.range config.iterations) ∧
        (∀ execution ∈ executions, Q execution) ∧
          result = {
            operations := UInt64.ofNat config.iterations
            errors := UInt64.ofNat (executions.countP Execution.failed) }

/-- What every step of a thread keeps of the main thread. -/
def ReadPhase.Inv : ReadPhase → Prop
  | .validate => True
  | .warmup _ _ => True
  | .measure workers => ∀ workerIdx < config.concurrency, ∃ worker,
      workers workerIdx = .ok worker ∧ Worked config hpos Q workerIdx worker
  | .closing outcome => Reported config Q F outcome
  | .returned outcome => Reported config Q F outcome

/-- The answers of an engine to the records of a corpus: none of them panics, the executions
satisfy `Q`, and the faults of a warm-up satisfy `F`. -/
structure Answers (corpus : List QueryCorpusRecord) (engine : StorageReads) : Prop where
  panics : ∀ recordIdx < corpus.length, executionPanics engine corpus recordIdx = false
  executions : ∀ iteration, ∀ recordIdx < corpus.length,
    Q ⟨iteration, recordIdx, executionFails engine corpus recordIdx⟩
  faults : ∀ recordIdx < corpus.length, ∀ fault,
    executeAt engine corpus recordIdx = .error fault → 0 < config.warmup → F fault

section Steps

variable {config hpos Q F} {curve : UInt64 → Nat → Nat} {corpus : List QueryCorpusRecord}
  {engine : StorageReads}

theorem worked_start (workerIdx : Nat) : Worked config hpos Q workerIdx (.start config workerIdx) :=
  ⟨rfl, by simp [WorkerState.start], rfl, rfl⟩

/-- A worker executes its next iteration. -/
theorem Worked.execute {workerIdx : Nat} {worker : WorkerState}
    (h : Worked config hpos Q workerIdx worker) (hanswers : Answers config Q F corpus engine)
    (hconfig : config.Valid) (hcorpus : 0 < corpus.length)
    (hlt : worker.idx < config.iterations) :
    ∃ worker', worker.execute curve corpus config engine = .ok worker' ∧
      worker'.idx = worker.idx + config.concurrency ∧ Worked config hpos Q workerIdx worker' := by
  obtain ⟨recordIdx, rng, hchoice⟩ :=
    @queryIndex_isOk curve _ hcorpus config.accessPattern worker.idx worker.rng
  -- the record is in the corpus, so the query neither panics nor is out of bounds
  have hrecord := queryIndex_lt hcorpus hchoice
  have hnoted : resultIsErr (executeAt engine corpus recordIdx) =
      .ok (executionFails engine corpus recordIdx) := by
    rcases resultIsErr_executeAt engine corpus recordIdx with ⟨hpanics, -⟩ | ⟨-, hnoted⟩
    · rw [hanswers.panics recordIdx hrecord] at hpanics
      cases hpanics
    · exact hnoted
  have hroom : ¬ usizeSize ≤ worker.idx + config.concurrency := by
    have := hconfig.indices
    omega
  have hexecute : worker.execute curve corpus config engine = .ok {
      idx := worker.idx + config.concurrency
      rng := rng
      result := worker.result.count (executionFails engine corpus recordIdx)
      executions := worker.executions ++
        [⟨worker.idx, recordIdx, executionFails engine corpus recordIdx⟩] } := by
    unfold WorkerState.execute
    rw [hchoice]
    simp only
    rw [hnoted]
    simp only
    rw [if_neg hroom]
  refine ⟨_, hexecute, rfl, ?_⟩
  constructor
  · have hnext : strided config.concurrency hpos config.iterations worker.idx = worker.idx ::
        strided config.concurrency hpos config.iterations (worker.idx + config.concurrency) := by
      rw [strided.eq_def, if_pos hlt]
    rw [← h.visits, hnext, List.map_append, List.append_assoc]
    rfl
  · exact List.forall_mem_append.2 ⟨h.answers,
      List.forall_mem_singleton.2 (hanswers.executions _ _ hrecord)⟩
  · rw [List.length_append, UInt64.ofNat_add, ← h.operations]
    rfl
  · rw [List.countP_append, UInt64.ofNat_add, ← h.errors]
    unfold QueryWorkerResult.count
    cases executionFails engine corpus recordIdx <;> simp

/-- The warm-up goes on, hands over to the workers, or ends the queries with a fault. -/
theorem inv_warmupNext (hanswers : Answers config Q F corpus engine) (hcorpus : 0 < corpus.length)
    (idx : Nat) (rng : DeterministicRng) :
    (warmupNext curve corpus config engine idx rng).Inv config hpos Q F := by
  unfold warmupNext
  split_ifs with hlt
  · obtain ⟨recordIdx, rng', hchoice⟩ :=
      @queryIndex_isOk curve _ hcorpus config.accessPattern idx rng
    rw [hchoice]
    simp only
    cases hexecute : executeAt engine corpus recordIdx with
    -- the fault ends the warm-up, which is not over yet
    | error fault =>
      exact hanswers.faults recordIdx (queryIndex_lt hcorpus hchoice) fault hexecute (by omega)
    | ok _ => trivial
  · -- the workers start behind the last round
    exact fun workerIdx _ => ⟨_, rfl, worked_start workerIdx⟩

/-- Joined workers have executed every iteration once. -/
theorem reported_joinedResult {workers : Nat → Except Fault WorkerState}
    (hworkers : (ReadPhase.measure workers).Inv config hpos Q F)
    (hfinished : ∀ workerIdx < config.concurrency, WorkerFinished config (workers workerIdx)) :
    Reported config Q F (joinedResult config workers) := by
  have : Nonempty WorkerState := ⟨.start config 0⟩
  choose! worker hworker hworked using hworkers
  -- a worker that has left its loop has visited all of its iterations
  have hvisits : ∀ workerIdx < config.concurrency,
      (worker workerIdx).executions.map Execution.iteration =
        strided config.concurrency hpos config.iterations workerIdx := by
    intro workerIdx hlt
    have hend := hfinished workerIdx hlt
    rw [hworker workerIdx hlt] at hend
    have hnone : strided config.concurrency hpos config.iterations (worker workerIdx).idx = [] := by
      rw [strided.eq_def, if_neg (Nat.not_lt.2 hend)]
    have hvisits := (hworked workerIdx hlt).visits
    rwa [hnone, List.append_nil] at hvisits
  have hjoin : joinWorkers ((List.range config.concurrency).map fun workerIdx =>
      (workers workerIdx).map (·.result)) =
        .ok ((List.range config.concurrency).map fun workerIdx => (worker workerIdx).result) := by
    refine (@joinWorkers_map_eq_ok_iff _ _ (fun _ => True) _ _
      (fun workerIdx hmem result => ?_) _).2 ⟨fun _ _ => trivial, rfl⟩
    rw [hworker workerIdx (List.mem_range.1 hmem), true_and]
    exact ⟨fun h => (Except.ok.inj h).symm, fun h => congrArg Except.ok h.symm⟩
  have hperm : (((List.range config.concurrency).flatMap fun workerIdx =>
      (worker workerIdx).executions).map Execution.iteration).Perm
        (List.range config.iterations) := by
    rw [List.map_flatMap, List.flatMap_congr fun workerIdx hmem =>
      hvisits workerIdx (List.mem_range.1 hmem)]
    exact flatMap_strided_perm hpos config.iterations
  unfold joinedResult
  rw [hjoin]
  refine ⟨_, hperm, fun execution hexecution => ?_, ?_⟩
  · obtain ⟨workerIdx, hmem, hmine⟩ := List.mem_flatMap.1 hexecution
    exact (hworked workerIdx (List.mem_range.1 hmem)).answers execution hmine
  · have hlength := hperm.length_eq
    rw [List.length_map, List.length_range, List.length_flatMap] at hlength
    rw [finishQueryResults_eq, List.map_map, List.map_map, List.countP_flatMap, ← hlength,
      ← sum_map_ofNat, ← sum_map_ofNat]
    congr 2
    · exact List.map_congr_left fun workerIdx hmem =>
        (hworked workerIdx (List.mem_range.1 hmem)).operations
    · exact List.map_congr_left fun workerIdx hmem =>
        (hworked workerIdx (List.mem_range.1 hmem)).errors

end Steps

end Main

/-! ## Runs -/

section Runs

variable {curve : UInt64 → Nat → Nat} {corpus : List QueryCorpusRecord}
  {config : QueryMeasureConfig} {json : SerdeJson} {sha256 : Bytes → Bytes}
  {Q : Execution → Prop} {F : Fault → Prop} {s s' : ReadIngestState}

theorem QueryMeasureConfig.Valid.validated (h : config.Valid) :
    QueryMeasureConfig.validated config = .warmup 0 (.new (seedFromString config.seed)) := by
  have hconcurrency : validateConcurrency config.iterations config.concurrency = .ok () := by
    have := h.concurrency
    have := h.iterations
    rw [validateConcurrency, if_neg (by omega), if_neg (by omega)]
  unfold QueryMeasureConfig.validated
  rw [h.pattern, hconcurrency]

/-- What a step keeps of the main thread, if the engine answers accordingly. -/
theorem ReadIngestStep.inv_main (h : ReadIngestStep curve corpus config json sha256 s s')
    (hconfig : config.Valid) (hcorpus : corpus ≠ [])
    (hanswers : Answers config Q F corpus (s.engine.reads json sha256))
    (hmain : s.main.Inv config hconfig.concurrency Q F) :
    s'.main.Inv config hconfig.concurrency Q F := by
  have hlength := List.length_pos_iff.2 hcorpus
  cases h with
  | ingest hrest => exact hmain
  | validate hphase =>
    show (QueryMeasureConfig.validated config).Inv config hconfig.concurrency Q F
    rw [hconfig.validated]
    trivial
  | warmup hphase => exact inv_warmupNext hanswers hlength _ _
  | @work workers i worker hphase hspawned hworker hlt =>
    rw [hphase] at hmain
    intro workerIdx hmem
    by_cases hme : workerIdx = i
    · subst hme
      obtain ⟨worker', hheld, hworked⟩ := hmain workerIdx hmem
      obtain rfl : worker = worker' := Except.ok.inj (hworker.symm.trans hheld)
      obtain ⟨next, hnext, -, hworked'⟩ :=
        @Worked.execute _ _ _ _ curve _ _ _ _ hworked hanswers hconfig hlength hlt
      exact ⟨next, by rw [Function.update_self, hnext], hworked'⟩
    -- the other workers stand where they stood
    · obtain ⟨worker', hheld, hworked⟩ := hmain workerIdx hmem
      exact ⟨worker', by rw [Function.update_of_ne hme, hheld], hworked⟩
  | join hphase hfinished =>
    rw [hphase] at hmain
    exact reported_joinedResult hmain hfinished
  | close hphase hrest =>
    rw [hphase] at hmain
    exact hmain

/-- The engine holds the rows of a prefix of the replay. The ingest thread has the others to put,
and none once the threads are joined. -/
structure Ingesting (ops done : List PutOp) (s : ReadIngestState) : Prop where
  ops_eq : ops = done ++ s.rest
  engine_eq : s.engine = MemoryEngine.empty.run done
  returned : ∀ outcome, s.main = .returned outcome → s.rest = []

theorem ReadIngestStep.ingesting (h : ReadIngestStep curve corpus config json sha256 s s')
    {ops done : List PutOp} (hs : Ingesting ops done s) :
    ∃ done', done <+: done' ∧ Ingesting ops done' s' := by
  -- a step of the main thread leaves the engine alone
  have hquery : ∀ {main : ReadPhase}, (∀ outcome, main = .returned outcome → s.rest = []) →
      ∃ done', done <+: done' ∧ Ingesting ops done' { s with main := main } :=
    fun hreturned => ⟨done, List.prefix_rfl, hs.ops_eq, hs.engine_eq, hreturned⟩
  cases h with
  | @ingest op rest hrest =>
    refine ⟨done ++ [op], List.prefix_append _ _, ?_, ?_, fun outcome hmain => ?_⟩
    · rw [hs.ops_eq, hrest, List.append_assoc]
      rfl
    · show s.engine.put op = _
      rw [hs.engine_eq, MemoryEngine.run_append]
      rfl
    · have hnone := hs.returned outcome hmain
      rw [hrest] at hnone
      cases hnone
  | validate =>
    apply hquery
    intro outcome hmain
    unfold QueryMeasureConfig.validated at hmain
    split at hmain
    · cases hmain
    · split at hmain <;> cases hmain
  | warmup =>
    apply hquery
    intro outcome hmain
    unfold warmupNext at hmain
    split_ifs at hmain
    split at hmain
    · cases hmain
    · split at hmain <;> cases hmain
  | work => exact hquery fun _ hmain => by cases hmain
  | join => exact hquery fun _ hmain => by cases hmain
  | close hphase hrest => exact hquery fun _ _ => hrest

end Runs

/-! ## Every schedule ends -/

section Ends

variable (config : QueryMeasureConfig)

/-- The rounds that a worker has left. -/
def workerRounds : Except Fault WorkerState → Nat
  | .error _ => 0
  | .ok worker => config.iterations - worker.idx

/-- A bound on the steps that the main thread and its workers have left. -/
def ReadPhase.rounds : ReadPhase → Nat
  | .validate => config.warmup +
      ∑ workerIdx ∈ Finset.range config.concurrency, (config.iterations - workerIdx) + 5
  | .warmup idx _ => (config.warmup - idx) +
      ∑ workerIdx ∈ Finset.range config.concurrency, (config.iterations - workerIdx) + 4
  | .measure workers =>
      ∑ workerIdx ∈ Finset.range config.concurrency, workerRounds config (workers workerIdx) + 3
  | .closing _ => 2
  | .returned _ => 1

/-- A bound on the steps that all threads have left. -/
def ReadIngestState.rounds (s : ReadIngestState) : Nat := s.rest.length + s.main.rounds config

variable {config} {curve : UInt64 → Nat → Nat} {corpus : List QueryCorpusRecord}
  {json : SerdeJson} {sha256 : Bytes → Bytes} {s s' : ReadIngestState}

theorem workerRounds_execute (hpos : 0 < config.concurrency) {engine : StorageReads}
    {worker : WorkerState} (hlt : worker.idx < config.iterations) :
    workerRounds config (worker.execute curve corpus config engine) <
      workerRounds config (.ok worker) := by
  have hleft : 0 < config.iterations - worker.idx := by omega
  unfold WorkerState.execute
  -- an error is the worker's last round, and any other round moves its index on
  cases queryIndex curve config.accessPattern worker.idx corpus.length worker.rng with
  | error fault => exact hleft
  | ok choice =>
    obtain ⟨recordIdx, rng⟩ := choice
    simp only
    cases resultIsErr (executeAt engine corpus recordIdx) with
    | error fault => exact hleft
    | ok failed =>
      simp only
      split_ifs with hroom
      · exact hleft
      · simp only [workerRounds]
        omega

theorem rounds_warmupNext (engine : StorageReads) (idx : Nat) (rng : DeterministicRng) :
    (warmupNext curve corpus config engine idx rng).rounds config <
      (ReadPhase.warmup idx rng).rounds config := by
  unfold warmupNext
  split_ifs with hlt
  · split
    · simp only [ReadPhase.rounds]
      omega
    · split
      · simp only [ReadPhase.rounds]
        omega
      · simp only [ReadPhase.rounds]
        omega
  · -- the rounds of the workers are counted in from the start
    simp only [ReadPhase.rounds, workerRounds, WorkerState.start]
    omega

theorem rounds_validated :
    (QueryMeasureConfig.validated config).rounds config < ReadPhase.validate.rounds config := by
  unfold QueryMeasureConfig.validated
  split
  · simp only [ReadPhase.rounds]
    omega
  · split
    · simp only [ReadPhase.rounds]
      omega
    · simp only [ReadPhase.rounds]
      omega

/-- Every step leaves fewer to do. -/
theorem ReadIngestStep.rounds_lt (h : ReadIngestStep curve corpus config json sha256 s s')
    (hpos : 0 < config.concurrency) : s'.rounds config < s.rounds config := by
  unfold ReadIngestState.rounds
  cases h with
  | ingest hrest =>
    rw [hrest, List.length_cons]
    simp only
    omega
  | validate hmain =>
    rw [hmain]
    exact Nat.add_lt_add_left rounds_validated _
  | warmup hmain =>
    rw [hmain]
    exact Nat.add_lt_add_left (rounds_warmupNext _ _ _) _
  | @work workers i worker hmain hspawned hworker hlt =>
    rw [hmain]
    refine Nat.add_lt_add_left (Nat.add_lt_add_right ?_ 3) _
    have hless : workerRounds config (worker.execute curve corpus config
        (s.engine.reads json sha256)) < workerRounds config (workers i) := by
      rw [hworker]
      exact workerRounds_execute hpos hlt
    -- the rounds of the other workers stay
    refine Finset.sum_lt_sum (fun workerIdx _ => ?_) ⟨i, Finset.mem_range.2 hspawned, ?_⟩
    · by_cases hme : workerIdx = i
      · subst hme
        rw [Function.update_self]
        exact hless.le
      · rw [Function.update_of_ne hme]
    · rw [Function.update_self]
      exact hless
  | join hmain hfinished =>
    rw [hmain]
    simp only [ReadPhase.rounds]
    omega
  | close hmain hrest =>
    rw [hmain]
    simp only [ReadPhase.rounds]
    omega

/-- The main thread or a worker can go on until the queries are over. -/
theorem exists_query_step (s : ReadIngestState) :
    (∃ main, ReadIngestStep curve corpus config json sha256 s { s with main := main }) ∨
      (∃ outcome, s.main = .closing outcome) ∨ ∃ outcome, s.main = .returned outcome := by
  cases hmain : s.main with
  | validate => exact .inl ⟨_, .validate hmain⟩
  | warmup idx rng => exact .inl ⟨_, .warmup hmain⟩
  | measure workers =>
    -- either all workers are joined, or one of them has a round to go
    by_cases hfinished : ∀ workerIdx < config.concurrency,
        WorkerFinished config (workers workerIdx)
    · exact .inl ⟨_, .join hmain hfinished⟩
    · push Not at hfinished
      obtain ⟨workerIdx, hspawned, hrunning⟩ := hfinished
      cases hworker : workers workerIdx with
      | error fault =>
        rw [hworker] at hrunning
        exact absurd trivial hrunning
      | ok worker =>
        rw [hworker] at hrunning
        exact .inl ⟨_, .work hmain hspawned hworker (Nat.not_le.1 hrunning)⟩
  | closing outcome => exact .inr (.inl ⟨outcome, rfl⟩)
  | returned outcome => exact .inr (.inr ⟨outcome, rfl⟩)

/-- Some thread can go on until the outcome is returned. -/
theorem exists_step (s : ReadIngestState) :
    (∃ s', ReadIngestStep curve corpus config json sha256 s s') ∨
      ∃ outcome, s.main = .returned outcome := by
  -- the main thread waits for the ingest thread only, which can always go on
  rcases @exists_query_step config curve corpus json sha256 s with
    ⟨main, hstep⟩ | ⟨outcome, hmain⟩ | hreturned
  · exact .inl ⟨_, hstep⟩
  · cases hrest : s.rest with
    | nil => exact .inl ⟨_, .close hmain hrest⟩
    | cons op rest => exact .inl ⟨_, .ingest hrest⟩
  · exact .inr hreturned

end Ends

/-! ## Queries that return -/

section Returns

/-- The computation returns, with a value or with an error: it does not panic. -/
def Returns {α : Type} (m : Except Fault α) : Prop := ∀ message, m ≠ .error (.panic message)

theorem Returns.ok {α : Type} (a : α) : Returns (.ok a : Except Fault α) := fun _ h => by cases h

theorem Returns.error {α : Type} (error : HotIndexError) :
    Returns (.error (.error error) : Except Fault α) := fun _ h => by cases h

theorem Returns.bind {α β : Type} {m : Except Fault α} {f : α → Except Fault β} (hm : Returns m)
    (hf : ∀ a, Returns (f a)) : Returns (m >>= f) := by
  cases m with
  | ok a => exact hf a
  | error fault =>
    intro message h
    cases h
    exact hm message rfl

theorem returns_required (value : Option String) (name : String) :
    Returns (required value name) := by
  cases value with
  | none => exact .error _
  | some value => exact .ok value

theorem returns_positiveLimit (record : QueryCorpusRecord) : Returns (positiveLimit record) := by
  unfold positiveLimit
  dsimp only
  split_ifs
  · exact .error _
  · exact .ok _

theorem returns_expectRows {α : Type} (rows : List α) (message : String) :
    Returns (expectRows rows message) := by
  unfold expectRows
  split_ifs
  · exact .error _
  · exact .ok _

theorem returns_expectRow {α : Type} (row : Option α) (message : String) :
    Returns (expectRow row message) := by
  cases row with
  | none => exact .error _
  | some row => exact .ok _

/-- No sum that a volume adds up overflows. -/
def MemoryEngine.VolumesReturn (inner : MemoryEngine) : Prop :=
  ∀ builderAddr, NoOverflow (inner.getBuilderCodeVolume builderAddr .h24)

theorem MemoryEngine.VolumesReturn.returns {inner : MemoryEngine} (h : inner.VolumesReturn)
    (builderAddr : String) : Returns (inner.getBuilderCodeVolume builderAddr .h24) := by
  -- a volume fails by overflow or not at all
  have hfails : FailsByOverflow (inner.getBuilderCodeVolume builderAddr .h24) := by
    unfold MemoryEngine.getBuilderCodeVolume
    dsimp only
    split_ifs
    · exact .ok _
    · exact .bind (failsByOverflow_builderVolumeRow _ _ _ _) fun row => .ok _
  obtain ⟨volume, hvolume⟩ := hfails.returns (h builderAddr)
  rw [hvolume]
  exact .ok volume

/-- A query of the memory engine panics only where a volume overflows. -/
theorem executeQuery_returns {inner : MemoryEngine} (h : inner.VolumesReturn) (json : SerdeJson)
    (sha256 : Bytes → Bytes) (record : QueryCorpusRecord) :
    Returns (executeQuery (inner.reads json sha256) record) := by
  -- the three scans differ in what they ask for
  have hscan : ∀ {α : Type} (text : Option String) (name : String) (scan : String → Limit → List α)
      (message : String → String), Returns (do
        let key ← required text name
        let rows ← (Except.ok (scan key (← positiveLimit record)) : Except Fault (List α))
        expectRows rows (message key)) := by
    intro α text name scan message
    refine .bind (returns_required _ _) fun key => .bind (returns_positiveLimit _) fun limit => ?_
    exact .bind (.ok _) fun rows => returns_expectRows _ _
  unfold executeQuery
  cases record.queryKind with
  | getTxByVersion =>
    cases record.txVersion with
    | none => exact .error _
    | some version => exact .bind (.ok _) fun row => returns_expectRow _ _
  | multiGetTxVersions =>
    dsimp only
    split_ifs
    · exact .error _
    · refine .bind (.ok _) fun rows => ?_
      split_ifs
      · exact .error _
      · exact .ok _
  | marketFillScan => exact hscan _ _ _ _
  | accountFillScan => exact hscan _ _ _ _
  | builderCodeFillScan => exact hscan _ _ _ _
  | builderCodeVolume =>
    refine .bind (returns_required _ _) fun builderAddr => ?_
    exact .bind (h.returns builderAddr) fun volume => returns_expectRow _ _
  | mixedDashboard => exact .error _

end Returns

/-! ## One recorded row -/

/-- The row of the recorded transaction. -/
def recordedRows : IngestRows where
  txs := [txRowFromTransaction recordedTransaction blankOptions]
  events := []
  fills := []
  orders := []
  positions := []
  builderRows := []
  activityRows := []

def tenIterations : QueryMeasureConfig where
  iterations := 10
  warmup := 0
  concurrency := 4
  accessPattern := "uniform"
  seed := "query-corpus-order"

theorem tenIterations_valid : tenIterations.Valid := ⟨by decide, by decide, by decide, by decide⟩

/-- Without attributions there are no volumes. -/
theorem volumesReturn_recordedRows (done : List PutOp) (h : done <+: recordedRows.ops) :
    (MemoryEngine.empty.run done).VolumesReturn := by
  have hops : recordedRows.ops = [.putTx (txRowFromTransaction recordedTransaction blankOptions)] :=
    rfl
  -- no prefix puts an attribution, so no volume is summed
  have hnone : ∀ op ∈ done, MemoryEngine.builderEntry op = none := by
    intro op hop
    have hmem := h.subset hop
    rw [hops, List.mem_singleton] at hmem
    rw [hmem]
    rfl
  intro builderAddr fault hfault
  have hempty : (MemoryEngine.empty.run done).builderAttributionsByFill.values = [] := by
    rw [MemoryEngine.builderAttributionsByFill_run, List.filterMap_eq_nil_iff.2 hnone]
    rfl
  unfold MemoryEngine.getBuilderCodeVolume at hfault
  rw [hempty] at hfault
  cases hfault

/-! ## What every schedule returns -/

section Safe

variable (json : SerdeJson) (sha256 : Bytes → Bytes) (ops : List PutOp)
  (corpus : List QueryCorpusRecord)

/-- The query was answered from what a prefix of the operations puts. -/
def AnsweredFromPrefix (execution : Execution) : Prop :=
  execution.recordIdx < corpus.length ∧ ∃ done, done <+: ops ∧ execution.failed =
    executionFails ((MemoryEngine.empty.run done).reads json sha256) corpus execution.recordIdx

/-- A query of the warm-up failed on what a prefix of the operations puts. -/
def WarmupFault (config : QueryMeasureConfig) (fault : Fault) : Prop :=
  0 < config.warmup ∧ ∃ done, done <+: ops ∧ ∃ recordIdx < corpus.length,
    executeAt ((MemoryEngine.empty.run done).reads json sha256) corpus recordIdx = .error fault

variable {json sha256 ops corpus}

theorem answers_prefix {done : List PutOp} (hdone : done <+: ops)
    (hvolumes : (MemoryEngine.empty.run done).VolumesReturn) (config : QueryMeasureConfig) :
    Answers config (AnsweredFromPrefix json sha256 ops corpus)
      (WarmupFault json sha256 ops corpus config) corpus
      ((MemoryEngine.empty.run done).reads json sha256) where
  panics := by
    intro recordIdx hlt
    -- nothing but a volume could panic
    have hreturns := executeQuery_returns hvolumes json sha256 corpus[recordIdx]
    unfold executionPanics executeAt
    rw [List.getElem?_eq_getElem hlt]
    simp only
    split
    · rename_i message hpanic
      exact absurd hpanic (hreturns message)
    · rfl
  executions := fun _ recordIdx hlt => ⟨hlt, done, hdone, rfl⟩
  faults := fun recordIdx hlt _ hfault hwarmup => ⟨hwarmup, done, hdone, recordIdx, hlt, hfault⟩

/-- **Safety across interleavings.** The threads of a benchmark take finitely many steps, in
whatever order, and stop only when the outcome is returned. Then all rows are in the engine, and
the outcome is a fault of the warm-up or the counts of one execution for each iteration, each
answered from a prefix of the replay. -/
theorem readUnderIngest_safe (curve : UInt64 → Nat → Nat) (rows : IngestRows)
    {config : QueryMeasureConfig} (hconfig : config.Valid) (hcorpus : corpus ≠ [])
    (hvolumes : ∀ done, done <+: rows.ops → (MemoryEngine.empty.run done).VolumesReturn) :
    WellFounded (fun s' s => ReadIngestStep curve corpus config json sha256 s s') ∧
      ∀ s, ReflTransGen (ReadIngestStep curve corpus config json sha256) (.start rows) s →
        ((¬ ∃ s', ReadIngestStep curve corpus config json sha256 s s') →
          ∃ outcome, s.main = .returned outcome) ∧
        ∀ outcome, s.main = .returned outcome →
          s.engine = MemoryEngine.empty.run rows.ops ∧
            Reported config (AnsweredFromPrefix json sha256 rows.ops corpus)
              (WarmupFault json sha256 rows.ops corpus config) outcome := by
  refine ⟨?_, fun s hrun => ⟨fun hstuck => ?_, fun outcome hreturned => ?_⟩⟩
  · -- each step takes one of the rounds that are left
    exact Subrelation.wf (fun hstep => hstep.rounds_lt hconfig.concurrency)
      (measure (ReadIngestState.rounds config)).wf
  · exact exists_step s |>.resolve_left hstuck
  · -- the engine is always that of a prefix, so each query is answered from one
    have hkeeps : ∀ s s', ((∃ done, Ingesting rows.ops done s) ∧ s.main.Inv config
        hconfig.concurrency (AnsweredFromPrefix json sha256 rows.ops corpus)
        (WarmupFault json sha256 rows.ops corpus config)) →
        ReadIngestStep curve corpus config json sha256 s s' →
        (∃ done, Ingesting rows.ops done s') ∧ s'.main.Inv config
          hconfig.concurrency (AnsweredFromPrefix json sha256 rows.ops corpus)
          (WarmupFault json sha256 rows.ops corpus config) := by
      rintro s s' ⟨⟨done, hs⟩, hmain⟩ hstep
      obtain ⟨done', -, hs'⟩ := hstep.ingesting hs
      refine ⟨⟨done', hs'⟩, hstep.inv_main hconfig hcorpus ?_ hmain⟩
      have hdone : done <+: rows.ops := ⟨_, hs.ops_eq.symm⟩
      rw [hs.engine_eq]
      exact answers_prefix hdone (hvolumes done hdone) config
    obtain ⟨⟨done, hs⟩, hmain⟩ := run_keeps hkeeps hrun
      ⟨⟨[], rfl, rfl, fun _ hstart => by cases hstart⟩, trivial⟩
    -- the benchmark returns behind the ingest thread
    have hrest := hs.returned outcome hreturned
    have hops := hs.ops_eq
    rw [hrest, List.append_nil] at hops
    rw [hreturned] at hmain
    exact ⟨hops ▸ hs.engine_eq, hmain⟩

/-- A schedule that is over has put the recorded transaction. -/
theorem readUnderIngest_safe_recordedRows :
    ∃ s outcome, ReflTransGen (ReadIngestStep (fun _ _ => 0) recordedCorpus tenIterations
        servedEnv.serde Sha256.digest) (.start recordedRows) s ∧
      s.main = .returned outcome ∧ s.engine = MemoryEngine.empty.run recordedRows.ops := by
  obtain ⟨hwf, hsafe⟩ := @readUnderIngest_safe servedEnv.serde Sha256.digest recordedCorpus
    (fun _ _ => 0) recordedRows _ tenIterations_valid (by decide) volumesReturn_recordedRows
  -- a state that no reachable state follows
  obtain ⟨s, hrun, hlast⟩ := hwf.has_min {s | ReflTransGen _ (.start recordedRows) s}
    ⟨_, .refl⟩
  have hstuck : ¬ ∃ s', ReadIngestStep (fun _ _ => 0) recordedCorpus tenIterations
      servedEnv.serde Sha256.digest s s' := by
    intro ⟨s', hstep⟩
    exact hlast s' (hrun.tail hstep) hstep
  obtain ⟨outcome, hreturned⟩ := (hsafe s hrun).1 hstuck
  exact ⟨s, outcome, hrun, hreturned, ((hsafe s hrun).2 outcome hreturned).1⟩

end Safe

/-! ## What depends on the schedule -/

section Races

variable {curve : UInt64 → Nat → Nat} {corpus : List QueryCorpusRecord}
  {config : QueryMeasureConfig} {json : SerdeJson} {sha256 : Bytes → Bytes}

/-- The ingest thread can put all of its rows while the main thread waits. -/
theorem exists_ingest_run (s : ReadIngestState) :
    ReflTransGen (ReadIngestStep curve corpus config json sha256) s
      { s with engine := s.engine.run s.rest, rest := [] } := by
  obtain ⟨engine, rest, main⟩ := s
  induction rest generalizing engine with
  | nil => exact .refl
  | cons op rest ih => exact (ih (engine.put op)).head (.ingest rfl)

/-- Queries that are over can be followed by the rest of the replay. -/
theorem exists_closing_run {s : ReadIngestState} {outcome : Except Fault BenchResult}
    (hmain : s.main = .closing outcome) :
    ∃ s', ReflTransGen (ReadIngestStep curve corpus config json sha256) s s' ∧
      s'.main = .returned outcome :=
  ⟨_, (exists_ingest_run s).tail (.close hmain rfl), rfl⟩

/-- All queries can be executed while the ingest thread waits. -/
theorem exists_query_run {Q : Execution → Prop} {F : Fault → Prop} {s : ReadIngestState}
    (hconfig : config.Valid) (hcorpus : corpus ≠ [])
    (hanswers : Answers config Q F corpus (s.engine.reads json sha256))
    (hmain : s.main.Inv config hconfig.concurrency Q F) :
    ∃ s' outcome, ReflTransGen (ReadIngestStep curve corpus config json sha256) s s' ∧
      s'.main = .returned outcome ∧ Reported config Q F outcome := by
  -- the main thread can always go on alone, and each of its steps takes a round
  have hprogress : ∀ now : ReadIngestState,
      (now.engine = s.engine ∧ now.main.Inv config hconfig.concurrency Q F) →
      ¬ ((∃ outcome, now.main = .closing outcome) ∨ ∃ outcome, now.main = .returned outcome) →
      ∃ next, ReadIngestStep curve corpus config json sha256 now next ∧
        (next.engine = s.engine ∧ next.main.Inv config hconfig.concurrency Q F) ∧
          next.rounds config < now.rounds config := by
    rintro now ⟨hengine, hnow⟩ hgoal
    obtain ⟨main, hstep⟩ := (exists_query_step now).resolve_right hgoal
    refine ⟨_, hstep, ⟨hengine, ?_⟩, hstep.rounds_lt hconfig.concurrency⟩
    exact hstep.inv_main hconfig hcorpus (hengine ▸ hanswers) hnow
  obtain ⟨ended, hrun, ⟨-, hended⟩, hgoal⟩ :=
    exists_run_of_progress (ReadIngestState.rounds config) hprogress ⟨rfl, hmain⟩
  rcases hgoal with ⟨outcome, hclosing⟩ | ⟨outcome, hreturned⟩
  · obtain ⟨s', hclose, hreturned⟩ :=
      @exists_closing_run curve corpus config json sha256 _ _ hclosing
    rw [hclosing] at hended
    exact ⟨s', outcome, hrun.trans hclose, hreturned, hended⟩
  · rw [hreturned] at hended
    exact ⟨ended, outcome, hrun, hreturned, hended⟩

/-- No query of a corpus finds anything in a fresh engine. -/
theorem executeQuery_empty {rows : QueryCorpusRows} {record : QueryCorpusRecord}
    (h : CorpusRecord rows record) :
    ∃ error, executeQuery (MemoryEngine.empty.reads json sha256) record =
      .error (.error error) := by
  -- the empty engine has no row for any record of a corpus
  cases h with
  | point tx htx => exact ⟨_, rfl⟩
  | multi versions hne hversions =>
    cases versions with
    | nil => exact absurd rfl hne
    | cons version versions => exact ⟨_, rfl⟩
  | market fill hfill => exact ⟨_, rfl⟩
  | account fill hfill => exact ⟨_, rfl⟩
  | builderScan row hrow => exact ⟨_, rfl⟩
  | builderVolume row hrow => exact ⟨_, rfl⟩

theorem IngestRows.fills_ops (rows : IngestRows) :
    rows.ops.filterMap PutOp.fill? = rows.fills := by
  simp [ops, List.filterMap_append, List.filterMap_map, Function.comp_def, PutOp.fill?]

theorem IngestRows.putBy_ops (rows : IngestRows) : rows.queryRows.PutBy rows.ops where
  txs := fun tx htx => by simp [ops, show tx ∈ rows.txs from htx]
  fills := fun fill hfill => by simp [ops, show fill ∈ rows.fills from hfill]
  builderRows := fun row hrow => by simp [ops, show row ∈ rows.builderRows from hrow]

/-- Replayed rows answer every query of their corpus. -/
theorem executeAt_run {rows : IngestRows} (hevents : rows.events ≠ [] → rows.txs ≠ [])
    (hfills : (rows.fills.map FillRow.fillId).Nodup)
    (hfit : VolumesFit ((MemoryEngine.empty.run rows.ops).reads json sha256) rows.builderRows)
    (hmem : ∀ record ∈ corpus, record ∈ buildQueryCorpus rows.queryRows) {recordIdx : Nat}
    (hlt : recordIdx < corpus.length) :
    executeAt ((MemoryEngine.empty.run rows.ops).reads json sha256) corpus recordIdx = .ok () := by
  have hput : rows.queryRows.PutBy rows.ops := rows.putBy_ops
  -- the corpus was built from the rows that were put
  have hids : ((rows.ops.filterMap PutOp.fill?).map FillRow.fillId).Nodup := by
    rwa [rows.fills_ops]
  unfold executeAt
  rw [List.getElem?_eq_getElem hlt]
  exact executeQuery_ok (MemoryEngine.reads_hits hids) hput hfit
    (corpusRecord_of_mem hevents (hmem _ (List.getElem_mem hlt)))

/-- The warm-up fails if its first query finds nothing. -/
theorem exists_failed_warmup (hconfig : config.Valid) (hcorpus : corpus ≠ [])
    (hwarmup : 0 < config.warmup) {s : ReadIngestState} (hmain : s.main = .validate)
    (hempty : ∀ recordIdx < corpus.length, ∃ error,
      executeAt (s.engine.reads json sha256) corpus recordIdx = .error (.error error)) :
    ∃ s' error, ReflTransGen (ReadIngestStep curve corpus config json sha256) s s' ∧
      s'.main = .returned (.error (.error error)) := by
  have hlength := List.length_pos_iff.2 hcorpus
  obtain ⟨recordIdx, rng, hchoice⟩ := @queryIndex_isOk curve _ hlength config.accessPattern 0
    (.new (seedFromString config.seed))
  obtain ⟨error, herror⟩ := hempty recordIdx (queryIndex_lt hlength hchoice)
  have hnext : warmupNext curve corpus config (s.engine.reads json sha256) 0
      (.new (seedFromString config.seed)) = .closing (.error (.error error)) := by
    unfold warmupNext
    rw [if_pos hwarmup, hchoice]
    simp only
    rw [herror]
  -- validate, one query of the warm-up, and the fault is handed on
  have hvalidated : ReadIngestStep curve corpus config json sha256 s
      { s with main := .warmup 0 (.new (seedFromString config.seed)) } := by
    rw [← hconfig.validated]
    exact .validate hmain
  have hwarmed : ReadIngestStep curve corpus config json sha256
      { s with main := .warmup 0 (.new (seedFromString config.seed)) }
      { s with main := .closing (.error (.error error)) } := by
    rw [← hnext]
    exact .warmup rfl
  obtain ⟨s', hclose, hreturned⟩ := @exists_closing_run curve corpus config json sha256
    { s with main := .closing (.error (.error error)) } _ rfl
  exact ⟨s', error, (hclose.head hwarmed).head hvalidated, hreturned⟩

/-- **The scheduler decides.** On rows whose corpus a replay answers, some schedule reports no
error. Another lets every iteration fail, or, with a warm-up, the benchmark itself. -/
theorem readUnderIngest_races (curve : UInt64 → Nat → Nat) (json : SerdeJson)
    (sha256 : Bytes → Bytes) {rows : IngestRows} (hevents : rows.events ≠ [] → rows.txs ≠ [])
    (hfills : (rows.fills.map FillRow.fillId).Nodup)
    (hfit : VolumesFit ((MemoryEngine.empty.run rows.ops).reads json sha256) rows.builderRows)
    {corpus : List QueryCorpusRecord} (hcorpus : corpus ≠ [])
    (hmem : ∀ record ∈ corpus, record ∈ buildQueryCorpus rows.queryRows)
    {config : QueryMeasureConfig} (hconfig : config.Valid) :
    (∃ s, ReflTransGen (ReadIngestStep curve corpus config json sha256) (.start rows) s ∧
        s.main = .returned (.ok config.clean)) ∧
      (config.warmup = 0 →
        ∃ s, ReflTransGen (ReadIngestStep curve corpus config json sha256) (.start rows) s ∧
          s.main = .returned (.ok {
            operations := UInt64.ofNat config.iterations
            errors := UInt64.ofNat config.iterations })) ∧
      (0 < config.warmup → ∃ s error,
        ReflTransGen (ReadIngestStep curve corpus config json sha256) (.start rows) s ∧
          s.main = .returned (.error (.error error))) := by
  -- before the first row is put, every query fails
  have hempty : ∀ recordIdx < corpus.length, ∃ error,
      executeAt (MemoryEngine.empty.reads json sha256) corpus recordIdx =
        .error (.error error) := by
    intro recordIdx hlt
    unfold executeAt
    rw [List.getElem?_eq_getElem hlt]
    exact executeQuery_empty (corpusRecord_of_mem hevents (hmem _ (List.getElem_mem hlt)))
  refine ⟨?_, fun hwarmup => ?_, fun hwarmup => ?_⟩
  · -- all rows are put before the first query
    have hanswers : Answers config (fun execution => execution.failed = false) (fun _ => False)
        corpus ((MemoryEngine.empty.run rows.ops).reads json sha256) := by
      have hanswered : ∀ recordIdx < corpus.length,
          executeAt ((MemoryEngine.empty.run rows.ops).reads json sha256) corpus recordIdx =
            .ok () :=
        fun recordIdx hlt => executeAt_run hevents hfills hfit hmem hlt
      refine ⟨fun recordIdx hlt => ?_, fun iteration recordIdx hlt => ?_,
        fun recordIdx hlt fault hfault _ => ?_⟩
      · rw [executionPanics, hanswered recordIdx hlt]
      · show executionFails _ corpus recordIdx = false
        rw [executionFails, hanswered recordIdx hlt]
      · rw [hanswered recordIdx hlt] at hfault
        cases hfault
    obtain ⟨s, outcome, hrun, hreturned, hreported⟩ :=
      @exists_query_run curve corpus config json sha256 _ _
        { engine := MemoryEngine.empty.run rows.ops, rest := [], main := .validate } hconfig
        hcorpus hanswers trivial
    cases outcome with
    | error fault => exact hreported.elim
    | ok result =>
      obtain ⟨executions, -, hall, rfl⟩ := hreported
      have hnone : executions.countP Execution.failed = 0 :=
        List.countP_eq_zero.2 fun execution hexecution => by simp [hall execution hexecution]
      rw [hnone] at hreturned
      exact ⟨s, (exists_ingest_run (.start rows)).trans hrun, hreturned⟩
  · -- all queries are executed before the first row is put
    have hanswers : Answers config (fun execution => execution.failed = true) (fun _ => False)
        corpus (MemoryEngine.empty.reads json sha256) := by
      refine ⟨fun recordIdx hlt => ?_, fun iteration recordIdx hlt => ?_,
        fun recordIdx hlt fault hfault hpos => by omega⟩
      · obtain ⟨error, herror⟩ := hempty recordIdx hlt
        rw [executionPanics, herror]
      · obtain ⟨error, herror⟩ := hempty recordIdx hlt
        show executionFails _ corpus recordIdx = true
        rw [executionFails, herror]
    obtain ⟨s, outcome, hrun, hreturned, hreported⟩ :=
      @exists_query_run curve corpus config json sha256 _ _ (.start rows) hconfig hcorpus hanswers
        trivial
    cases outcome with
    | error fault => exact hreported.elim
    | ok result =>
      obtain ⟨executions, hperm, hall, rfl⟩ := hreported
      have hlength := hperm.length_eq
      rw [List.length_map, List.length_range] at hlength
      have hevery : executions.countP Execution.failed = config.iterations := by
        rw [List.countP_eq_length.2 hall, hlength]
      rw [hevery] at hreturned
      exact ⟨s, hrun, hreturned⟩
  · exact exists_failed_warmup hconfig hcorpus hwarmup rfl hempty

theorem readUnderIngest_races_recordedRows :
    ∃ clean failed, ReflTransGen (ReadIngestStep (fun _ _ => 0) recordedCorpus tenIterations
        servedEnv.serde Sha256.digest) (.start recordedRows) clean ∧
      clean.main = .returned (.ok { operations := 10, errors := 0 }) ∧
      ReflTransGen (ReadIngestStep (fun _ _ => 0) recordedCorpus tenIterations servedEnv.serde
        Sha256.digest) (.start recordedRows) failed ∧
      failed.main = .returned (.ok { operations := 10, errors := 10 }) := by
  have hcorpus : buildQueryCorpus recordedRows.queryRows = recordedCorpus := by decide +kernel
  obtain ⟨⟨clean, hclean, hreturned⟩, hfailed, -⟩ := @readUnderIngest_races (fun _ _ => 0)
    servedEnv.serde Sha256.digest recordedRows (fun h => absurd rfl h) List.nodup_nil
    (fun _ hrow => nomatch hrow) recordedCorpus (by decide) (by rw [hcorpus]; exact fun _ => id)
    tenIterations tenIterations_valid
  obtain ⟨failed, hrun, herrors⟩ := hfailed rfl
  exact ⟨clean, failed, hclean, hreturned, hrun, herrors⟩

end Races

end HotIndex
