import DxRt.Lib.Run
import DxRt.Service.Aliases

/-! lib/inference_engine.cpp: `Run` over a batch.

    `Run` cuts the batch into calls of `runSubBatch`; each starts its runs one by one through
    `runAsync` and waits until the callbacks have counted them. The callbacks run on the threads of
    the workers, at any time after the run was started, and refer to locals of their call: a
    counter, a flag and a condition variable, which no common lock protects. A step is one access
    to something shared. When a call has returned, its locals are gone; what a callback then reads
    there, and what it hits, is up to the environment.

    Other users of the pool pick, use and release the job slots that the batch does not hold. Left
    out are the occupied flags and the status, which the batch does not read. -/

namespace DxRt.Inference

def SUB_BATCH_MAX_COUNT : ℕ := 128

def INFERENCE_JOB_MAX_COUNT : ℕ := 1024

/-- The index of a job in the pool, for which `GetById` finds the job. -/
abbrev JobId := Fin INFERENCE_JOB_MAX_COUNT

/-! ### The arguments -/

/-- The arguments of `runAsync`. -/
structure RunArgs where
  inputPtr : ℕ
  userArg : ℕ
  outputPtr : ℕ
  batchIndex : ℕ
  deriving DecidableEq

/-- The arguments of `Run`, with `_isMultiInput` and the size of `_modelInputOrder`. Pointers are
    numbers, 0 for null. -/
structure BatchArgs where
  isMultiInput : Bool
  modelInputCount : ℕ
  inputBuffers : List ℕ
  outputBuffers : List ℕ
  userArgs : List ℕ
  deriving DecidableEq

inductive BatchError
  | invalidArgument (message : String)
  | lengthError
  deriving DecidableEq

/-- How `Run` interprets its arguments. -/
inductive Interpretation
  | multiInput
  | batch (batchCount : ℕ)
  deriving DecidableEq

namespace BatchArgs

/-- The checks at the beginning of `Run`. The sizes are converted to `int`. -/
def interpret (a : BatchArgs) : Except BatchError Interpretation :=
  let bufferCount := MemFDService.toInt32 a.inputBuffers.length
  if bufferCount = 0 then
    .error (.invalidArgument "The number of elements in inputPtrs must be greater than 0.")
  else if a.isMultiInput ∧ bufferCount = MemFDService.toInt32 a.modelInputCount then
    .ok .multiInput
  else if a.userArgs.length ≠ 0 ∧ bufferCount ≠ MemFDService.toInt32 a.userArgs.length then
    .error (.invalidArgument
      "The number of elements in inputPtrs does not match the number of elements in userArgs.")
  else if bufferCount ≠ MemFDService.toInt32 a.outputBuffers.length then
    .error (.invalidArgument
      "The number of elements in inputPtrs does not match the number of elements in outputPtrs.")
  -- the constructor of the result vector converts the count back to `size_t`
  else if bufferCount < 0 then .error .lengthError
  else .ok (.batch bufferCount.toNat)

/-- The arguments of the run at `startIndex + i`; `none` when an `at` throws. The user argument is
    looked up by the index within the sub-batch. -/
def runArgs (a : BatchArgs) (startIndex i : ℕ) : Option RunArgs := do
  let userArg ← if a.userArgs.length = 0 then some 0 else a.userArgs[i]?
  let currentIndex := startIndex + i
  let inputPtr ← a.inputBuffers[currentIndex]?
  let outputPtr ← a.outputBuffers[currentIndex]?
  return ⟨inputPtr, userArg, outputPtr, currentIndex⟩

end BatchArgs

/-- The loop of `Run` over the full sub-batches, by start index and count. -/
def subBatchLoop : ℕ → ℕ → List (ℕ × ℕ)
  | 0, _ => []
  | loops + 1, startIndex =>
    (startIndex, SUB_BATCH_MAX_COUNT) :: subBatchLoop loops (startIndex + SUB_BATCH_MAX_COUNT)

/-- The calls of `runSubBatch`. -/
def subBatches (batchCount : ℕ) : List (ℕ × ℕ) :=
  let loops := batchCount / SUB_BATCH_MAX_COUNT
  let remain := batchCount % SUB_BATCH_MAX_COUNT
  subBatchLoop loops 0 ++ if 0 < remain then [(loops * SUB_BATCH_MAX_COUNT, remain)] else []

/-! ### The state -/

/-- An `InferenceJob` of the pool; `holder` is the run of the batch that has picked it. -/
structure JobSlot where
  useFlag : Bool
  batchIndex : ℤ
  holder : Option ℕ
  deriving DecidableEq

/-- Where a started run stands: at its requests, in the user's callback, at a step of
    `batch_callback`, or behind it. -/
inductive Callback (ω : Type*)
  | requests
  | userCallback (outputs : ω)
  | getBatchIndex (outputs : ω)
  | store (outputs : ω) (batchIndex : ℤ)
  | count
  | loadCount
  | loadCompleted
  | notify
  | finished
  | over

/-- A run that was started, by call `subBatch` of `runSubBatch`. -/
structure BatchRun (ω : Type*) where
  args : RunArgs
  job : JobId
  subBatch : ℕ
  outputs : Option ω
  callback : Callback ω

/-- The next step of the thread in `Run`. -/
inductive Main
  /-- In `Run`, before the next call of `runSubBatch`. -/
  | next
  /-- At the head of the loop. -/
  | loop (i : ℕ)
  /-- In `runAsync`: before `pick`, before `SetBatchIndex`, before `startJob`, and after it. -/
  | pick (i : ℕ) (args : RunArgs)
  | prepare (i : ℕ) (args : RunArgs) (j : JobId)
  | start (i : ℕ) (args : RunArgs) (j : JobId)
  | started (i : ℕ)
  /-- Before `is_completed = true`. -/
  | setCompleted
  /-- In `wait`: at the predicate, after it was false, and asleep. -/
  | predicate
  | block
  | asleep
  | returned
  | thrown
  /-- The arguments are those of one run with several inputs. -/
  | multiInput
  deriving DecidableEq

/-- In `runSubBatch`. -/
def Main.inside : Main → Bool
  | .next | .returned | .thrown | .multiInput => false
  | _ => true

/-- `Run` is over. -/
def Main.over : Main → Bool
  | .returned | .thrown => true
  | _ => false

/-- `Run` with the locals of the current call of `runSubBatch`, the pool, and the runs in the order
    in which they were started. -/
structure Batch (ω : Type*) where
  todo : List (ℕ × ℕ)
  startIndex : ℕ
  batchCount : ℕ
  subBatch : ℕ
  completeCount : ℕ
  isCompleted : Bool
  main : Main
  jobs : JobId → JobSlot
  runs : List (BatchRun ω)
  result : List (Option ω)

/-- Who takes a step. -/
inductive BatchActor (ω : Type*)
  | main
  /-- `pick` finds a job. -/
  | pick (j : JobId)
  /-- `runAsync` throws. -/
  | throws
  /-- A wake-up without a notification. -/
  | wakeUp
  /-- The requests of a run are done. -/
  | complete (k : ℕ) (outputs : ω)
  /-- The user's callback throws. -/
  | userThrows (k : ℕ)
  /-- The callback of a run; `hits` is what it finds in locals that are gone. -/
  | callback (k : ℕ) (hits : Bool)
  /-- Another user of the pool. -/
  | foreign (j : JobId) (useFlag : Bool) (batchIndex : ℤ)

namespace Batch
variable {ω : Type*}

/-- `Run` before it has done anything, with any pool. -/
def idle (pool : JobId → Bool × ℤ) (main : Main) : Batch ω where
  todo := []
  startIndex := 0
  batchCount := 0
  subBatch := 0
  completeCount := 0
  isCompleted := false
  main := main
  jobs j := ⟨(pool j).1, (pool j).2, none⟩
  runs := []
  result := []

/-- `Run` after the checks. -/
def checked (pool : JobId → Bool × ℤ) : Except BatchError Interpretation → Batch ω
  | .error _ => idle pool .thrown
  | .ok .multiInput => idle pool .multiInput
  | .ok (.batch batchCount) => { idle pool .next with
      todo := subBatches batchCount
      result := List.replicate batchCount none }

def init (a : BatchArgs) (pool : JobId → Bool × ℤ) : Batch ω := checked pool a.interpret

/-- The locals of call `subBatch` of `runSubBatch` are there. -/
def live (s : Batch ω) (subBatch : ℕ) : Bool := subBatch = s.subBatch ∧ s.main.inside

def setJob (s : Batch ω) (j : JobId) (slot : JobSlot) : Batch ω :=
  { s with jobs := Function.update s.jobs j slot }

/-- `notify_one`. -/
def notifyOne (s : Batch ω) : Batch ω :=
  if s.main = .asleep then { s with main := .predicate } else s

/-! ### The steps -/

/-- `runSubBatch` is called, with new locals. -/
def call (s : Batch ω) (startIndex batchCount : ℕ) (todo : List (ℕ × ℕ)) : Batch ω :=
  { s with
    todo := todo
    startIndex := startIndex
    batchCount := batchCount
    subBatch := s.subBatch + 1
    completeCount := 0
    isCompleted := false
    main := .loop 0 }

/-- A step of the thread in `Run`. -/
def mainStep (a : BatchArgs) (s : Batch ω) : Option (Batch ω) :=
  match s.main with
  | .next => match s.todo with
    | [] => some { s with main := .returned }
    | (startIndex, batchCount) :: todo => some (s.call startIndex batchCount todo)
  | .loop i =>
    if i < s.batchCount then
      match a.runArgs s.startIndex i with
      | none => some { s with main := .next }
      | some args => some { s with main := .pick i args }
    else some { s with main := .setCompleted }
  | .prepare i args j => some
      { s.setJob j { s.jobs j with batchIndex := args.batchIndex } with main := .start i args j }
  | .start i args j => some
      { s with runs := s.runs ++ [⟨args, j, s.subBatch, none, .requests⟩], main := .started i }
  | .started i => some { s with main := .loop (i + 1) }
  | .setCompleted => some { s with isCompleted := true, main := .predicate }
  | .predicate => some { s with main := if s.completeCount = s.batchCount then .next else .block }
  | .block => some { s with main := .asleep }
  | _ => none

/-- A step of `batch_callback` for run `r`, and the release of the job after it. -/
def callbackStep (s : Batch ω) (r : BatchRun ω) (hits : Bool) : Option (Callback ω × Batch ω) :=
  match r.callback with
  | .userCallback outputs => some (.getBatchIndex outputs, s)
  | .getBatchIndex outputs => some (.store outputs (s.jobs r.job).batchIndex, s)
  | .store outputs batchIndex => some (.count,
      -- an index behind the vector throws, and the callback goes on
      if 0 ≤ batchIndex then { s with result := s.result.set batchIndex.toNat (some outputs) }
      else s)
  | .count => some (.loadCount,
      if s.live r.subBatch || hits then { s with completeCount := s.completeCount + 1 } else s)
  | .loadCount =>
    let equal := if s.live r.subBatch then decide (s.completeCount = s.batchCount) else hits
    some (if equal then .loadCompleted else .finished, s)
  | .loadCompleted =>
    let isCompleted := if s.live r.subBatch then s.isCompleted else hits
    some (if isCompleted then .notify else .finished, s)
  | .notify => some (.finished, if s.live r.subBatch || hits then s.notifyOne else s)
  | .finished => some (.over, s.setJob r.job { s.jobs r.job with useFlag := false, holder := none })
  | _ => none

/-- Run `k` after a step. -/
def setRun (s : Batch ω) (k : ℕ) (r : BatchRun ω) : Batch ω := { s with runs := s.runs.set k r }

/-- One step, if it is enabled. -/
def exec (a : BatchArgs) (s : Batch ω) : BatchActor ω → Option (Batch ω)
  | .main => s.mainStep a
  | .pick j => match s.main with
    | .pick i args =>
      if (s.jobs j).useFlag then none
      else some { s.setJob j { s.jobs j with useFlag := true, holder := some s.runs.length } with
        main := .prepare i args j }
    | _ => none
  | .throws => match s.main with
    | .pick .. | .prepare .. | .start .. | .started _ => some { s with main := .next }
    | _ => none
  | .wakeUp => if s.main = .asleep then some { s with main := .predicate } else none
  | .complete k outputs => match s.runs[k]? with
    | some r => match r.callback with
      | .requests => some
          (s.setRun k { r with outputs := some outputs, callback := .userCallback outputs })
      | _ => none
    | none => none
  | .userThrows k => match s.runs[k]? with
    | some r => match r.callback with
      | .userCallback _ => some (s.setRun k { r with callback := .finished })
      | _ => none
    | none => none
  | .callback k hits => match s.runs[k]? with
    | some r => (s.callbackStep r hits).map fun (callback, s) =>
        s.setRun k { r with callback := callback }
    | none => none
  | .foreign j useFlag batchIndex =>
    if (s.jobs j).holder = none then some (s.setJob j ⟨useFlag, batchIndex, none⟩) else none

end Batch
end DxRt.Inference
