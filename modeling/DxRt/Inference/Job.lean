import DxRt.Inference.Graph
import DxRt.Lib.Run
import DxRt.Lib.Trace

/-! lib/inference_job.cpp: a run of an `InferenceJob`.

    `startJob` sends a request for the head task, `startMultiInputJob` for every task whose inputs
    are there; `onRequestComplete` stores the outputs, counts the completion and looks through the
    successors. The threads that do this interleave: a step is one critical section of the job's
    lock or the unlocked code between two of them. A request completes at any time after it was
    sent, with any data pointers for its outputs. What happens is recorded in a log, latest first.
    Left out are the times, the logging and where the user's output buffer holds which output. -/

set_option linter.unusedSectionVars false

namespace DxRt.Inference
variable {τ ν : Type*} [DecidableEq τ] [DecidableEq ν]

inductive Status
  | idle
  | ready
  | busy
  | done
  deriving DecidableEq

/-- What a run does; `mapped` lists, per input, the data pointer `processReadyTask` found. -/
inductive Event (τ ν : Type*)
  | issued (t : Task τ ν)
  | mapped (t : Task τ ν) (found : List (Option ℕ))
  | completed (t : Task τ ν)
  | allComplete
  deriving DecidableEq

/-- The loop a thread is in: that of `startMultiInputJob`, or that of `onRequestComplete` with its
    `all_request_complete`. -/
inductive Caller
  | start
  | complete (allRequestComplete : Bool)
  deriving DecidableEq

/-- A request: its task, and the outputs that were prepared before it was sent. -/
structure TaskRequest (τ ν : Type*) where
  task : Task τ ν
  outputs : List ν
  deriving DecidableEq

/-- Where a thread of the job stands. -/
inductive Thread (τ ν : Type*)
  /-- At the beginning of `startJob`. -/
  | startJob (inputPtr outputPtr : ℕ)
  /-- `startJob` after its critical section. -/
  | startHead (head : Task τ ν) (outputPtr : ℕ)
  /-- At the beginning of `startMultiInputJob`; `order` is the order of the status map. -/
  | startMultiInputJob (inputTensors : List (ν × ℕ)) (order : List τ)
  /-- At the head of the loop, with the tasks still to look at. -/
  | loop (todo : List (Task τ ν)) (caller : Caller)
  /-- About to call `checkAndSetTaskReady`. -/
  | check (t : Task τ ν) (todo : List (Task τ ν)) (caller : Caller)
  /-- At the beginning of `processReadyTask`. -/
  | process (t : Task τ ν) (todo : List (Task τ ν)) (caller : Caller)
  /-- `processReadyTask`, about to map the input tensors. -/
  | map (t : Task τ ν) (todo : List (Task τ ν)) (caller : Caller)
  /-- `processReadyTask` with the data pointers it found. -/
  | send (t : Task τ ν) (found : List (Option ℕ)) (todo : List (Task τ ν)) (caller : Caller)
  deriving DecidableEq

/-- `_tensors` by data pointer (0 for null), `_taskStatusMap`, the two counters, the requests sent
    and not completed, the threads, and the log. -/
structure Job (τ ν : Type*) where
  tensors : ν → Option ℕ
  taskStatus : τ → Option Status
  doneCount : ℕ
  outputCount : ℕ
  outstanding : List (TaskRequest τ ν)
  threads : List (Thread τ ν)
  log : List (Event τ ν)

namespace Job
variable {g : Graph τ ν} {s : Job τ ν} {t : Task τ ν}

/-- `SetInferenceJob`, with the thread that starts the job. -/
def init (g : Graph τ ν) (start : Thread τ ν) : Job τ ν where
  tensors _ := none
  taskStatus name := if name ∈ g.tasks.map Task.name then some .idle else none
  doneCount := 0
  outputCount := g.tasks.length
  outstanding := []
  threads := [start]
  log := []

/-- `_tensors.insert`, which leaves an entry that is there. -/
def insertTensor (tensors : ν → Option ℕ) (x : ν) (ptr : ℕ) : ν → Option ℕ :=
  if (tensors x).isSome then tensors else Function.update tensors x (some ptr)

def setStatus (s : Job τ ν) (t : Task τ ν) (status : Status) : Job τ ν :=
  { s with taskStatus := Function.update s.taskStatus t.name (some status) }

def record (s : Job τ ν) (e : Event τ ν) : Job τ ν := { s with log := e :: s.log }

/-- `RequestResponse::InferenceRequest`. -/
def inferenceRequest (s : Job τ ν) (req : TaskRequest τ ν) : Job τ ν :=
  { s with outstanding := req :: s.outstanding, log := .issued req.task :: s.log }

/-- `BuildUserOutputTensorsForTailTask`, by name: what of the outputs has a place in the user's
    buffer. -/
def userOutputs (g : Graph τ ν) (t : Task τ ν) (outputPtr : ℕ) : List ν :=
  if outputPtr = 0 then [] else t.outputNames.filter fun x => x ∈ g.lastOutputOrder

/-- The request of `startJob`. -/
def headRequest (g : Graph τ ν) (head : Task τ ν) (outputPtr : ℕ) : TaskRequest τ ν :=
  ⟨head, if head.isTail then userOutputs g head outputPtr else []⟩

/-- `is_shared_input`: a task other than the head reads the model input. -/
def isSharedInput (g : Graph τ ν) (head : Task τ ν) (x : ν) : Bool :=
  g.tasks.any fun t => t ≠ head ∧ x ∈ t.inputs

/-- The critical section of `startJob`. -/
def addSharedInputs (g : Graph τ ν) (s : Job τ ν) (head : Task τ ν) (inputPtr : ℕ) : Job τ ν :=
  { s with
    tensors := (g.modelInputs.filter (isSharedInput g head)).foldl
      (fun tensors x => insertTensor tensors x inputPtr) s.tensors }

/-- The critical section of `startMultiInputJob`. -/
def addInputs (s : Job τ ν) (inputTensors : List (ν × ℕ)) : Job τ ν :=
  { s with
    tensors := inputTensors.foldl
      (fun tensors pair => insertTensor tensors pair.1 pair.2) s.tensors }

/-- `missing_inputs.empty()`. -/
def inputsAvailable (s : Job τ ν) (t : Task τ ν) : Bool :=
  t.inputs.all fun x => (s.tensors x).isSome

/-- `checkAndSetTaskReady`. -/
def checkAndSetTaskReady (s : Job τ ν) (t : Task τ ν) : Job τ ν × Bool :=
  match s.taskStatus t.name with
  | some .idle => if s.inputsAvailable t then (s.setStatus t .ready, true) else (s, false)
  | _ => (s, false)

/-- `missing_ptr`; a tensor that was not found has no data. -/
def missingPtr (found : List (Option ℕ)) : Bool := found.any fun p => p.getD 0 = 0

/-- One step of a thread: the new state, and where the thread stands, if it goes on. -/
def exec (g : Graph τ ν) (s : Job τ ν) : Thread τ ν → Job τ ν × Option (Thread τ ν)
  | .startJob inputPtr outputPtr =>
    match g.head with
    | none => (s, none)
    | some head => (addSharedInputs g s head inputPtr, some (.startHead head outputPtr))
  | .startHead head outputPtr => (s.inferenceRequest (headRequest g head outputPtr), none)
  | .startMultiInputJob inputTensors order =>
    (s.addInputs inputTensors, some (.loop (order.filterMap g.findTask) .start))
  | .loop [] caller =>
    if caller = .complete true then (s.record .allComplete, none) else (s, none)
  | .loop (t :: todo) .start =>
    if s.taskStatus t.name = some .idle then (s, some (.check t todo .start))
    else (s, some (.loop todo .start))
  | .loop (t :: todo) (.complete all) => (s, some (.check t todo (.complete all)))
  | .check t todo caller =>
    match s.checkAndSetTaskReady t with
    | (s, true) => (s, some (.process t todo caller))
    | (s, false) => (s, some (.loop todo caller))
  | .process t todo caller =>
    if s.taskStatus t.name = some .ready then (s, some (.map t todo caller))
    else (s, some (.loop todo caller))
  | .map t todo caller =>
    let found := t.inputs.map s.tensors
    (s.record (.mapped t found), some (.send t found todo caller))
  | .send t found todo caller =>
    if missingPtr found then (s.setStatus t .idle, some (.loop todo caller))
    else ((s.setStatus t .busy).inferenceRequest ⟨t, []⟩, some (.loop todo caller))

/-- `req->outputs()` when the request completes. The device layers enter all outputs of the task;
    `RunWithSession` does when none were prepared, and else keeps these. -/
def finalOutputs (req : TaskRequest τ ν) : List ν :=
  if req.task.processor = .cpu ∧ req.outputs ≠ [] then req.outputs else req.task.outputNames

/-- The outputs of a request in `_tensors`, where `ptr` gives their data. -/
def storeOutputs (s : Job τ ν) (req : TaskRequest τ ν) (ptr : ν → ℕ) : Job τ ν :=
  { s with tensors := fun x => if x ∈ finalOutputs req then some (ptr x) else s.tensors x }

/-- The critical section of `onRequestComplete`; its thread goes on with the successors. -/
def onRequestComplete (g : Graph τ ν) (s : Job τ ν) (req : TaskRequest τ ν) (ptr : ν → ℕ) :
    Job τ ν :=
  let thisTask := req.task
  let s := ((s.storeOutputs req ptr).setStatus thisTask .done).record (.completed thisTask)
  let s := { s with doneCount := s.doneCount + 1 }
  let allRequestComplete := decide (s.doneCount = s.outputCount)
  { s with threads := .loop (g.nexts thisTask) (.complete allRequestComplete) :: s.threads }

/-- A step of the job: of one of its threads, or the completion of a request. The data pointers of
    a completed request are among the `valid` ones. -/
inductive Step (g : Graph τ ν) (valid : ℕ → Prop) : Job τ ν → Job τ ν → Prop
  | thread {s : Job τ ν} {before after : List (Thread τ ν)} {th : Thread τ ν}
      (hth : s.threads = before ++ th :: after) :
      Step g valid s { (exec g s th).1 with
        threads := before ++ (exec g s th).2.toList ++ after }
  | complete {s : Job τ ν} {before after : List (TaskRequest τ ν)} {req : TaskRequest τ ν}
      {ptr : ν → ℕ} (hreq : s.outstanding = before ++ req :: after) (hptr : ∀ x, valid (ptr x)) :
      Step g valid s (onRequestComplete g { s with outstanding := before ++ after } req ptr)

/-! ### A run by its choices -/

/-- The next step: of the `i`-th thread, or the completion of the `i`-th request with data at
    `ptr`. -/
inductive Choice
  | thread (i : ℕ)
  | complete (i ptr : ℕ)

def choose (g : Graph τ ν) (s : Job τ ν) : Choice → Job τ ν
  | .thread i => match s.threads[i]? with
    | none => s
    | some th => { (exec g s th).1 with
        threads := s.threads.take i ++ (exec g s th).2.toList ++ s.threads.drop (i + 1) }
  | .complete i ptr => match s.outstanding[i]? with
    | none => s
    | some req => onRequestComplete g
        { s with outstanding := s.outstanding.take i ++ s.outstanding.drop (i + 1) } req
        fun _ => ptr

def play (g : Graph τ ν) (s : Job τ ν) (choices : List Choice) : Job τ ν := choices.foldl (choose g) s

theorem choose_step {valid : ℕ → Prop} (s : Job τ ν) (c : Choice)
    (hc : ∀ i ptr, c = .complete i ptr → valid ptr) :
    Relation.ReflTransGen (Step g valid) s (choose g s c) := by
  cases c with
  | thread i =>
    cases hi : s.threads[i]? with
    | none =>
      simp only [choose, hi]
      exact .refl
    | some th =>
      simp only [choose, hi]
      obtain ⟨hlt, rfl⟩ := List.getElem?_eq_some_iff.mp hi
      exact .single (.thread (by rw [← List.drop_eq_getElem_cons hlt, List.take_append_drop]))
  | complete i ptr =>
    cases hi : s.outstanding[i]? with
    | none =>
      simp only [choose, hi]
      exact .refl
    | some req =>
      simp only [choose, hi]
      obtain ⟨hlt, rfl⟩ := List.getElem?_eq_some_iff.mp hi
      exact .single (.complete (by rw [← List.drop_eq_getElem_cons hlt, List.take_append_drop])
        fun _ => hc i ptr rfl)

theorem play_run {valid : ℕ → Prop} (s : Job τ ν) (choices : List Choice)
    (hc : ∀ i ptr, .complete i ptr ∈ choices → valid ptr) :
    Relation.ReflTransGen (Step g valid) s (play g s choices) := by
  induction choices generalizing s with
  | nil => exact .refl
  | cons c choices ih =>
    refine (choose_step s c fun i ptr hci => hc i ptr (by simp [hci])).trans ?_
    exact ih (choose g s c) fun i ptr hmem => hc i ptr (List.mem_cons_of_mem _ hmem)

end Job
end DxRt.Inference
