import DxRt.Scheduler.Queue

/-! lib/dxrt_service/schedule_service.cpp: the scheduler service.

    One mutex guards every public function, so each is one atomic step on the state; what a
    function does after it has released the mutex is its list of `Callbacks`. The answers of the
    listener (`validateTask`) and of the device (`isBlocked`, `InferenceRequest`) are inputs: the
    k-th `doInference` of a call is told `env k`. Any other result of `InferenceRequest` than 0,
    `-EBUSY` and `-EAGAIN` aborts the service. The `log` records calls in and out, newest first. -/

namespace DxRt

/-- The one device of a configuration with a single device is device 0. -/
instance neZero_one : NeZero 1 := ⟨one_ne_zero⟩

/-- `DX_RT_SERVICE_SCHED_THRE`. -/
def SCHED_THRE : ℤ := 6

/-- The fields of `dxrt_request_acc_t` that the scheduler reads. -/
structure Request where
  procId : ℤ
  reqId : ℤ
  taskId : ℤ
  deriving DecidableEq

def Request.key (r : Request) : Key := (r.procId, r.reqId)

/-- The fields of `dxrt_response_t` that the scheduler reads or writes. -/
structure Response where
  procId : ℤ
  reqId : ℤ
  infTime : ℕ
  status : ℤ
  deriving DecidableEq

def Response.key (r : Response) : Key := (r.procId, r.reqId)

inductive RequestState where | pending | running | cancelled
  deriving DecidableEq

structure RequestEntry (n : ℕ) where
  data : Request
  state : RequestState
  deviceId : Option (Fin n)
  deriving DecidableEq

/-- The results of `InferenceRequest` that the service survives. -/
inductive Retval where | ok | ebusy | eagain
  deriving DecidableEq

/-- What one `doInference` is told, and how a tie in the heap is resolved before it. -/
structure Answer where
  validateTask : Bool
  isBlocked : Bool
  inferenceRequest : Retval
  tie : ℕ
  deriving DecidableEq

abbrev Env := ℕ → Answer

/-- Calls in and out. `stopped` is a request that a stop function removed or cancelled, `rejected`
    one that `doInference` removed: with -1 when `validateTask` said no, with -2 when `isBlocked`
    said yes. -/
inductive Event (n : ℕ) where
  | addScheduler (deviceId : Fin n) (request : Request)
  | finishJobs (deviceId : Fin n) (response : Response)
  | stopped (key : Key)
  | rejected (deviceId : Fin n) (key : Key) (status : ℤ)
  | inferenceRequest (deviceId : Fin n) (key : Key) (taskId : ℤ) (state : RequestState)
      (retval : Retval)
  | onInferenceComplete (response : Response) (deviceId : Fin n)
  | onTaskDrained (procId taskId : ℤ)
  deriving DecidableEq

/-- What a call does after it has released the lock, in this order. -/
structure Callbacks (n : ℕ) where
  deferred : List (Response × Fin n)
  drained : Option (ℤ × ℤ)
  completed : Option (Response × Fin n)
  deriving DecidableEq

structure Scheduler (p : Policy) (n : ℕ) where
  loads : Fin n → ℤ
  loadsProc : SortedMap ℤ ℤ
  map : SortedMap ℤ (SortedMap ℤ (RequestEntry n))
  pendingErrorCallbacks : List (Response × Fin n)
  queues : Fin n → DeviceQueue p
  taskTimeMap : SortedMap (ℤ ×ₗ ℤ) ℕ
  log : List (Event n)

namespace Scheduler
variable {p : Policy} {n : ℕ}

def init (p : Policy) (n : ℕ) : Scheduler p n where
  loads _ := 0
  loadsProc := .empty
  map := .empty
  pendingErrorCallbacks := []
  queues _ := .empty p
  taskTimeMap := .empty
  log := []

/-! ### Access to the maps -/

/-- `_map.find(pid)->second.find(reqId)`, when both are there. -/
def entry (s : Scheduler p n) (k : Key) : Option (RequestEntry n) :=
  (s.map.find? k.1).bind fun requests => requests.find? k.2

/-- `_map[pid][reqId] = e`. -/
def setEntry (s : Scheduler p n) (k : Key) (e : RequestEntry n) : Scheduler p n :=
  { s with map := s.map.insert k.1 (((s.map.find? k.1).getD .empty).insert k.2 e) }

/-- `procIt->second.erase(reqId)`; the process stays, even with no request left. -/
def eraseEntry (s : Scheduler p n) (k : Key) : Scheduler p n :=
  match s.map.find? k.1 with
  | none => s
  | some requests => { s with map := s.map.insert k.1 (requests.erase k.2) }

def incLoadsProc (s : Scheduler p n) (procId : ℤ) : Scheduler p n :=
  { s with loadsProc := s.loadsProc.insert procId ((s.loadsProc.find? procId).getD 0 + 1) }

/-- `if (_loadsProc.count(pid) && _loadsProc[pid] > 0) _loadsProc[pid]--`. -/
def decLoadsProc (s : Scheduler p n) (procId : ℤ) : Scheduler p n :=
  match s.loadsProc.find? procId with
  | none => s
  | some load =>
    if 0 < load then { s with loadsProc := s.loadsProc.insert procId (load - 1) } else s

def setQueue (s : Scheduler p n) (d : Fin n) (q : DeviceQueue p) : Scheduler p n :=
  { s with queues := Function.update s.queues d q }

def addLoad (s : Scheduler p n) (d : Fin n) (i : ℤ) : Scheduler p n :=
  { s with loads := Function.update s.loads d (s.loads d + i) }

def record (s : Scheduler p n) (ev : Event n) : Scheduler p n := { s with log := ev :: s.log }

/-! ### Task times, kept by the shortest-job-first scheduler only -/

def getTaskInferenceTime (s : Scheduler p n) (procId taskId : ℤ) : ℕ :=
  match p with
  | .sjf => (s.taskTimeMap.find? (toLex (procId, taskId))).getD 0
  | .fifo | .roundRobin => 0

/-- Only the first time measured is kept. -/
def updateTaskInferenceTime (s : Scheduler p n) (procId taskId : ℤ) (time : ℕ) : Scheduler p n :=
  match p with
  | .sjf =>
    if (s.taskTimeMap.find? (toLex (procId, taskId))).getD 0 = 0 then
      { s with taskTimeMap := s.taskTimeMap.insert (toLex (procId, taskId)) time }
    else s
  | .fifo | .roundRobin => s

def pushRequest (s : Scheduler p n) (d : Fin n) (k : Key) (taskId : ℤ) : Scheduler p n :=
  s.setQueue d ((s.queues d).push k.1 k.2 (s.getTaskInferenceTime k.1 taskId))

/-! ### `doInference` and `schedule` -/

/-- The error response that a refused request is completed with. -/
def errorResp (k : Key) (status : ℤ) : Response := ⟨k.1, k.2, 0, status⟩

/-- A request that is not valid (-1) or whose device is blocked (-2) leaves the map. -/
def reject (s : Scheduler p n) (d : Fin n) (k : Key) (status : ℤ) : Scheduler p n :=
  let s := ((s.decLoadsProc k.1).eraseEntry k).record (.rejected d k status)
  { s with pendingErrorCallbacks := s.pendingErrorCallbacks ++ [(errorResp k status, d)] }

/-- PENDING → RUNNING, and the call of `InferenceRequest`. -/
def submit (s : Scheduler p n) (d : Fin n) (k : Key) (e : RequestEntry n) (retval : Retval) :
    Scheduler p n :=
  ((s.setEntry k { e with state := .running, deviceId := some d }).addLoad d 1).record
    (.inferenceRequest d k e.data.taskId e.state retval)

/-- The device is busy: back to PENDING and into the queue. -/
def revert (s : Scheduler p n) (d : Fin n) (k : Key) (e : RequestEntry n) : Scheduler p n :=
  ((s.addLoad d (-1)).setEntry k { e with state := .pending, deviceId := none }).pushRequest d k
    e.data.taskId

/-- `doInference`; `schedule` is what it goes on with when the request cannot be sent. The state of
    the entry is not looked at. -/
def doInference (schedule : Scheduler p n → Scheduler p n) (answer : Answer) (d : Fin n) (k : Key)
    (s : Scheduler p n) : Scheduler p n :=
  match s.map.find? k.1 with
  | none => schedule s
  | some requests =>
    match requests.find? k.2 with
    | none => schedule s
    | some e =>
      if answer.validateTask = false then schedule (s.reject d k (-1))
      else if answer.isBlocked then schedule (s.reject d k (-2))
      else
        match answer.inferenceRequest with
        | .ok => s.submit d k e .ok
        | retval => (s.submit d k e retval).revert d k e

/-- `schedule`, for at most `fuel` requests. -/
def scheduleUpTo : ℕ → Env → Fin n → Scheduler p n → Scheduler p n
  | 0, _, _, s => s
  | fuel + 1, env, d, s =>
    match (s.queues d).pop (env 0).tie with
    | (none, q) => s.setQueue d q
    | (some k, q) =>
      doInference (scheduleUpTo fuel (fun i => env (i + 1)) d) (env 0) d k (s.setQueue d q)

/-- `schedule(deviceId)`: every round takes a request out of the queue, so the length of the queue
    bounds the rounds. -/
def schedule (s : Scheduler p n) (env : Env) (d : Fin n) : Scheduler p n :=
  scheduleUpTo ((s.queues d).contents.card + 1) env d s

/-! ### The public functions -/

/-- `HasPendingRequest(pid, reqId)`: a request in any state. -/
def hasPendingRequest (s : Scheduler p n) (k : Key) : Bool := (s.entry k).isSome

/-- The flush at the end of `AddScheduler` and `FinishJobs`. -/
def takeErrors (s : Scheduler p n) : Scheduler p n × List (Response × Fin n) :=
  ({ s with pendingErrorCallbacks := [] }, s.pendingErrorCallbacks)

/-- `AddScheduler` before it looks at the load. -/
def enqueue (s : Scheduler p n) (r : Request) (d : Fin n) : Scheduler p n :=
  let s := ((s.record (.addScheduler d r)).setEntry r.key ⟨r, .pending, none⟩).incLoadsProc r.procId
  s.pushRequest d r.key r.taskId

/-- The locked part of `AddScheduler`. -/
def addLocked (s : Scheduler p n) (env : Env) (r : Request) (d : Fin n) :
    Scheduler p n × Callbacks n :=
  let s := s.enqueue r d
  let s := if s.loads d < SCHED_THRE then s.schedule env d else s
  let (s, deferred) := s.takeErrors
  (s, ⟨deferred, none, none⟩)

/-- No entry of any state is left for the task. -/
def taskDrained (s : Scheduler p n) (procId taskId : ℤ) : Bool :=
  ((s.map.find? procId).getD .empty).entries.all fun kv => decide (kv.2.data.taskId ≠ taskId)

/-- The load of the device goes down, but not below zero. -/
def dropLoad (s : Scheduler p n) (d : Fin n) : Scheduler p n :=
  if 0 < s.loads d then s.addLoad d (-1) else s

/-- The locked part of `FinishJobs`. The two early returns do not take the deferred errors. -/
def finishLocked (s : Scheduler p n) (env : Env) (d : Fin n) (response : Response) :
    Scheduler p n × Callbacks n :=
  let s := (s.record (.finishJobs d response)).dropLoad d
  match s.map.find? response.procId with
  | none => (s.schedule env d, ⟨[], none, none⟩)
  | some requests =>
    let s := s.decLoadsProc response.procId
    match requests.find? response.reqId with
    | none => (s.schedule env d, ⟨[], none, none⟩)
    | some e =>
      let taskId := e.data.taskId
      let s := s.updateTaskInferenceTime response.procId taskId response.infTime
      let s := s.eraseEntry response.key
      let drained :=
        if s.taskDrained response.procId taskId then some (response.procId, taskId) else none
      let s := s.schedule env d
      let (s, deferred) := s.takeErrors
      (s, ⟨deferred, drained, if e.state = .cancelled then none else some (response, d)⟩)

/-- `onInferenceComplete` for every deferred error. -/
def fireDeferred (s : Scheduler p n) (deferred : List (Response × Fin n)) : Scheduler p n :=
  deferred.foldl (fun s cb => s.record (.onInferenceComplete cb.1 cb.2)) s

/-- The unlocked part: deferred errors, the drain notice, the result. -/
def fire (r : Scheduler p n × Callbacks n) : Scheduler p n :=
  let s := r.1.fireDeferred r.2.deferred
  let s :=
    match r.2.drained with
    | some (procId, taskId) => s.record (.onTaskDrained procId taskId)
    | none => s
  match r.2.completed with
  | some (response, d) => s.record (.onInferenceComplete response d)
  | none => s

def addScheduler (s : Scheduler p n) (env : Env) (r : Request) (d : Fin n) : Scheduler p n :=
  fire (s.addLocked env r d)

def finishJobs (s : Scheduler p n) (env : Env) (d : Fin n) (response : Response) : Scheduler p n :=
  fire (s.finishLocked env d response)

/-- What a stop does to a request: RUNNING is cancelled, PENDING removed, CANCELLED kept. -/
def stopEntry (e : RequestEntry n) : Option (RequestEntry n) :=
  match e.state with
  | .running => some { e with state := .cancelled }
  | .pending => none
  | .cancelled => some e

/-- The loop of both stop functions, over the requests of `pid` that `sel` selects. -/
def stopSelected (s : Scheduler p n) (pid : ℤ) (sel : RequestEntry n → Bool)
    (requests : SortedMap ℤ (RequestEntry n)) : Scheduler p n :=
  let touched := requests.entries.filter fun kv => sel kv.2 && decide (kv.2.state ≠ .cancelled)
  let erased := touched.filter fun kv => decide (kv.2.state = .pending)
  let s := erased.foldl (fun s _ => s.decLoadsProc pid) s
  { s with
    map := s.map.insert pid (requests.filterMapVal fun e => if sel e then stopEntry e else some e)
    log := touched.map (fun kv => .stopped (pid, kv.1)) ++ s.log }

/-- `StopTaskInference(pid, deviceId, taskId)`; the device is only logged. -/
def stopTaskInference (s : Scheduler p n) (pid : ℤ) (_d : Fin n) (taskId : ℤ) : Scheduler p n :=
  match s.map.find? pid with
  | none => s
  | some requests => s.stopSelected pid (fun e => decide (e.data.taskId = taskId)) requests

/-- `StopAllInferenceForProcess(pid, deviceId)`; the device is only logged. A process with no
    request left is removed. -/
def stopAllInferenceForProcess (s : Scheduler p n) (pid : ℤ) (_d : Fin n) : Scheduler p n :=
  match s.map.find? pid with
  | none => s
  | some requests =>
    let s := s.stopSelected pid (fun _ => true) requests
    match s.map.find? pid with
    | none => s
    | some left => if left.isEmpty then { s with map := s.map.erase pid } else s

/-- A running request on the device of `ClearRunningRequests`. -/
def runningOn (d : Fin n) (e : RequestEntry n) : Bool :=
  decide (e.state = .running ∧ e.deviceId = some d)

def clearRunningRequests (s : Scheduler p n) (pid : ℤ) (d : Fin n) : Scheduler p n :=
  match s.map.find? pid with
  | none => s
  | some requests =>
    let touched := requests.entries.filter fun kv => runningOn d kv.2
    { s with
      map := s.map.insert pid (requests.filterMapVal fun e =>
        some (if runningOn d e then { e with state := .cancelled } else e))
      log := touched.map (fun kv => .stopped (pid, kv.1)) ++ s.log }

/-- `GetRunningTaskIds(pid)`: the tasks with a RUNNING request, on whatever device, in the order of a
    `std::set`. -/
def getRunningTaskIds (s : Scheduler p n) (pid : ℤ) : List ℤ :=
  match s.map.find? pid with
  | none => []
  | some requests =>
    let running := requests.entries.filter fun kv => decide (kv.2.state = .running)
    (running.map fun kv => kv.2.data.taskId).dedup.insertionSort (· ≤ ·)

/-- The calls of the scheduler's owner. -/
inductive Op (n : ℕ) where
  | addScheduler (env : Env) (request : Request) (deviceId : Fin n)
  | finishJobs (env : Env) (deviceId : Fin n) (response : Response)
  | stopTaskInference (pid : ℤ) (deviceId : Fin n) (taskId : ℤ)
  | stopAllInferenceForProcess (pid : ℤ) (deviceId : Fin n)
  | clearRunningRequests (pid : ℤ) (deviceId : Fin n)

def exec (s : Scheduler p n) : Op n → Scheduler p n
  | .addScheduler env r d => s.addScheduler env r d
  | .finishJobs env d response => s.finishJobs env d response
  | .stopTaskInference pid d taskId => s.stopTaskInference pid d taskId
  | .stopAllInferenceForProcess pid d => s.stopAllInferenceForProcess pid d
  | .clearRunningRequests pid d => s.clearRunningRequests pid d

/-- One call, subject to `ok`. -/
def Step (ok : Scheduler p n → Op n → Prop) (s t : Scheduler p n) : Prop :=
  ∃ op, ok s op ∧ t = s.exec op

end Scheduler
end DxRt
