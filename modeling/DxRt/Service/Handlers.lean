import DxRt.Memory.Service
import DxRt.Scheduler.Service
import DxRt.Service.SharedMemory

/-! lib/dxrt_service/dxrt_service_v2.cpp: the handlers above the scheduler and the memory services.

    The scheduler, the memory services, the task store, `_pendingTaskFree` and the handle table have
    locks of their own. `HandleProcessDeInit`, `TaskDeInit` and `onTaskDrained` take several of them
    one after the other, so they are threads that any other call can come between; a step of a
    thread is what it does under one lock. The other handlers are one step each. What
    `HandleInferenceRequest` checks before it calls `AddScheduler` changes nothing, so a call of
    `AddScheduler` may come at any time. Device ids out of range are turned away at once. -/

namespace DxRt

/-! ### Bounds and tasks -/

/-- `npu_bound_op`. -/
inductive NpuBoundOp where
  | normal | infOnlyNpu0 | infOnlyNpu1 | infOnlyNpu2 | inf2Npu01 | inf2Npu12 | inf2Npu02
  deriving DecidableEq

/-- The indices of the count array. -/
def NpuBoundOp.all : List NpuBoundOp :=
  [.normal, .infOnlyNpu0, .infOnlyNpu1, .infOnlyNpu2, .inf2Npu01, .inf2Npu12, .inf2Npu02]

/-- `BoundManager`: how many tasks use each bound of a device. -/
structure BoundManager where
  boundCount : NpuBoundOp → ℤ

namespace BoundManager

def getBoundTypeCount (m : BoundManager) : ℕ :=
  NpuBoundOp.all.countP fun bound => 0 < m.boundCount bound

def count (m : BoundManager) (bound : NpuBoundOp) (i : ℤ) : BoundManager :=
  ⟨Function.update m.boundCount bound (m.boundCount bound + i)⟩

/-- `AddBound`; the driver is asked for the first use only and answers `ret`. -/
def addBound (m : BoundManager) (bound : NpuBoundOp) (ret : ℤ) : BoundManager × ℤ :=
  if 0 < m.boundCount bound then (m.count bound 1, 0)
  else if ret = 0 then (m.count bound 1, 0)
  else (m, ret)

/-- `DeleteBound`; the driver is asked for the last use only. -/
def deleteBound (m : BoundManager) (bound : NpuBoundOp) (ret : ℤ) : BoundManager × ℤ :=
  if 1 < m.boundCount bound then (m.count bound (-1), 0)
  else if ret = 0 then (m.count bound (-1), 0)
  else (m, ret)

def canAcceptBound (m : BoundManager) (bound : NpuBoundOp) : Bool :=
  decide (0 < m.boundCount bound) || decide (m.getBoundTypeCount < 3)

end BoundManager

/-- `ProcessTaskInfoStore`: the tasks of a process on a device with their bounds. -/
abbrev TaskInfoStore (n : ℕ) := SortedMap (ℤ ×ₗ Fin n) (SortedMap ℤ NpuBoundOp)

/-- The entries of the `unordered_map` of one process and device, which come in any order. -/
abbrev TaskEntries := List (ℤ × NpuBoundOp)

namespace TaskInfoStore
variable {n : ℕ}

def tasksOf (store : TaskInfoStore n) (pid : ℤ) (d : Fin n) : SortedMap ℤ NpuBoundOp :=
  (store.find? (toLex (pid, d))).getD .empty

def hasTask (store : TaskInfoStore n) (pid : ℤ) (d : Fin n) (taskId : ℤ) : Bool :=
  (store.tasksOf pid d).contains taskId

def addTask (store : TaskInfoStore n) (pid : ℤ) (d : Fin n) (taskId : ℤ) (bound : NpuBoundOp) :
    TaskInfoStore n × Bool :=
  if store.hasTask pid d taskId then (store, false)
  else (store.insert (toLex (pid, d)) ((store.tasksOf pid d).insert taskId bound), true)

/-- `removeTask`; the last task takes the entry of the process with it. -/
def removeTask (store : TaskInfoStore n) (pid : ℤ) (d : Fin n) (taskId : ℤ) :
    TaskInfoStore n × Option NpuBoundOp :=
  match (store.tasksOf pid d).find? taskId with
  | none => (store, none)
  | some bound =>
    let tasks := (store.tasksOf pid d).erase taskId
    (if tasks.isEmpty then store.erase (toLex (pid, d)) else store.insert (toLex (pid, d)) tasks,
      some bound)

/-- `extractTaskIdsWithBound`, in the given order when it is one of the entries. -/
def extractTaskIdsWithBound (store : TaskInfoStore n) (pid : ℤ) (d : Fin n) (order : TaskEntries) :
    TaskInfoStore n × TaskEntries :=
  match store.find? (toLex (pid, d)) with
  | none => (store, [])
  | some tasks =>
    (store.erase (toLex (pid, d)), if order.isPerm tasks.entries then order else tasks.entries)

end TaskInfoStore

/-! ### Threads -/

/-- Where `HandleProcessDeInit` stands: what it does next. `running` is the set it has read,
    `taskEntries` what it has taken from the task store. -/
inductive Phase where
  | readRunning
  | deferFree (running : List ℤ)
  | stopAll (running : List ℤ)
  | extract (running : List ℤ)
  | stopTasks (running : List ℤ) (todo taskEntries : TaskEntries)
  | free (running : List ℤ) (taskEntries : TaskEntries)
  | deleteBound (running : List ℤ) (bound : NpuBoundOp) (taskEntries : TaskEntries)
  deriving DecidableEq

/-- A call in progress. `deInit` is `onClientDisconnected` at device `d`, with the devices `rest`
    still to come; `taskDeInit` is about to stop the task, `deleteBound` to release its bound;
    `onTaskDrained` is about to look into `_pendingTaskFree`, and `freeing` has found a device
    there. -/
inductive Thread (n : ℕ) where
  | deInit (pid : ℤ) (d : Fin n) (rest : List (Fin n)) (phase : Phase)
  | taskDeInit (pid : ℤ) (d : Fin n) (taskId : ℤ) (bound : NpuBoundOp)
  | deleteBound (d : Fin n) (bound : NpuBoundOp)
  | onTaskDrained (pid taskId : ℤ)
  | freeing (pid taskId : ℤ) (d : Fin n)
  deriving DecidableEq

structure Service (p : Policy) (n : ℕ) where
  sched : Scheduler p n
  mem : Fin n → MemoryService
  memAddr : Fin n → ℕ
  bounds : Fin n → BoundManager
  tasks : TaskInfoStore n
  pendingTaskFree : SortedMap (ℤ ×ₗ ℤ) (Fin n)
  handles : HandleTable
  threads : List (Thread n)

namespace Service
variable {p : Policy} {n : ℕ}

def init (p : Policy) (memAddr memSize : Fin n → ℕ) : Service p n where
  sched := .init p n
  mem d := .ofInfo (memSize d)
  memAddr := memAddr
  bounds _ := ⟨fun _ => 0⟩
  tasks := .empty
  pendingTaskFree := .empty
  handles := .empty
  threads := []

def setMem (s : Service p n) (d : Fin n) (m : MemoryService) : Service p n :=
  { s with mem := Function.update s.mem d m }

def setBounds (s : Service p n) (d : Fin n) (m : BoundManager) : Service p n :=
  { s with bounds := Function.update s.bounds d m }

def deallocateTask (s : Service p n) (d : Fin n) (pid taskId : ℤ) : Service p n :=
  s.setMem d ((s.mem d).deallocateTask pid taskId).1

/-! ### Requests of a client -/

/-- The `SharedMemoryInfo` of a failed allocation. -/
def invalidInfo (blockId : ℤ) : SharedMemoryInfo := ⟨blockId, 0, 0, 0, NEG1, -1⟩

/-- The four allocation functions that `HandleAllocate` chooses from. -/
def allocateFor (mem : MemoryService) (size : ℕ) (pid taskId : ℤ) (forModel : Bool) :
    MemoryService × ℕ :=
  if taskId ≠ -1 then
    if forModel then mem.backwardAllocateForTask size pid taskId
    else mem.allocateForTask size pid taskId
  else if forModel then mem.backwardAllocate size pid
  else mem.allocate size pid

/-- `HandleAllocate`; `shm` is what `CreateSharedMemory` returns, or the code that it throws. -/
def handleAllocate (s : Service p n) (pid : ℤ) (d : Fin n) (taskId : ℤ) (size : ℕ)
    (forModel : Bool) (shm : Except ℤ SharedMemoryInfo) : Service p n × SharedMemoryInfo :=
  let (mem, physAddrOffset) := allocateFor (s.mem d) size pid taskId forModel
  if physAddrOffset = NEG1 then (s.setMem d mem, invalidInfo 0)
  else
    match shm with
    | .error code => (s.setMem d (mem.deallocateAddress physAddrOffset pid).1, invalidInfo code)
    | .ok shmInfo =>
      let info := { shmInfo with physAddrBase := s.memAddr d, physAddrOffset := physAddrOffset }
      ({ s.setMem d mem with handles := s.handles.trackSharedMemoryHandle (d : ℕ) pid info }, info)

/-- `HandleDeallocate`: a known handle, or else an offset or an absolute address. -/
def handleDeallocate (s : Service p n) (pid : ℤ) (d : Fin n) (address : ℕ) : Service p n × Bool :=
  match s.handles.tryResolveSharedMemoryHandle (d : ℕ) pid address with
  | (handles, some handle) =>
    let (mem, ok) := (s.mem d).deallocateAddress handle.physAddrOffset pid
    ({ s.setMem d mem with handles := handles }, ok)
  | (_, none) =>
    let offset := if s.memAddr d ≤ address then address - s.memAddr d else address
    let (mem, ok) := (s.mem d).deallocateAddress offset pid
    (s.setMem d mem, ok)

/-- The memory of the device is tidied up when the model does not fit. -/
def makeRoom (s : Service p n) (d : Fin n) (modelMemorySize : ℕ) : Service p n :=
  if modelMemorySize ≤ (s.mem d).freeSize then s else s.setMem d (s.mem d).optimizeMemory

/-- `TaskInit`; `isBlocked` and `ret` are the answers of the device. -/
def taskInit (s : Service p n) (pid : ℤ) (d : Fin n) (taskId : ℤ) (bound : NpuBoundOp)
    (modelMemorySize : ℕ) (isBlocked : Bool) (ret : ℤ) : Service p n × Bool :=
  let s := s.makeRoom d modelMemorySize
  if ¬ modelMemorySize ≤ (s.mem d).freeSize then (s, false)
  else if isBlocked then (s, false)
  else if (s.bounds d).canAcceptBound bound = false then (s, false)
  else if ((s.bounds d).addBound bound ret).2 ≠ 0 then (s, false)
  else
    let s := s.setBounds d ((s.bounds d).addBound bound ret).1
    match s.tasks.addTask pid d taskId bound with
    | (tasks, true) => ({ s with tasks := tasks }, true)
    | (_, false) => (s.setBounds d ((s.bounds d).deleteBound bound ret).1, false)

/-- `TaskDeInit` takes the task out of the store; the rest is a thread. -/
def taskDeInit (s : Service p n) (pid : ℤ) (d : Fin n) (taskId : ℤ) : Service p n :=
  match s.tasks.removeTask pid d taskId with
  | (_, none) => s
  | (tasks, some bound) =>
    { s with tasks := tasks, threads := .taskDeInit pid d taskId bound :: s.threads }

def addScheduler (s : Service p n) (env : Env) (r : Request) (d : Fin n) : Service p n :=
  { s with sched := s.sched.addScheduler env r d }

/-- `FinishJobs`; a drained task starts `onTaskDrained`. -/
def finishJobs (s : Service p n) (env : Env) (d : Fin n) (response : Response) : Service p n :=
  let drained := (s.sched.finishLocked env d response).2.drained
  { s with
    sched := s.sched.finishJobs env d response
    threads := (drained.map fun task => .onTaskDrained task.1 task.2).toList ++ s.threads }

/-! ### Steps of the threads -/

/-- The calls of `HandleProcessDeInit` that `onClientDisconnected` has still to make. -/
def deInitAll (pid : ℤ) : List (Fin n) → Option (Thread n)
  | [] => none
  | d :: rest => some (.deInit pid d rest .readRunning)

def onClientDisconnected (s : Service p n) (pid : ℤ) : Service p n :=
  { s with threads := (deInitAll pid (List.finRange n)).toList ++ s.threads }

/-- `_pendingTaskFree[{pid, taskId}] = deviceId` for every task in the list. -/
def deferFree (pid : ℤ) (d : Fin n) (running : List ℤ) (table : SortedMap (ℤ ×ₗ ℤ) (Fin n)) :
    SortedMap (ℤ ×ₗ ℤ) (Fin n) :=
  running.foldl (fun table taskId => table.insert (toLex (pid, taskId)) d) table

/-- The next lock of `HandleProcessDeInit(pid, d)`, and where the call then stands. -/
def deInitStep (s : Service p n) (pid : ℤ) (d : Fin n) (order : TaskEntries) (ret : ℤ) :
    Phase → Service p n × Option Phase
  | .readRunning => (s, some (.deferFree (s.sched.getRunningTaskIds pid)))
  | .deferFree running =>
    ({ s with pendingTaskFree := deferFree pid d running s.pendingTaskFree },
      some (.stopAll running))
  | .stopAll running =>
    ({ s with sched := s.sched.stopAllInferenceForProcess pid d }, some (.extract running))
  | .extract running =>
    let (tasks, taskEntries) := s.tasks.extractTaskIdsWithBound pid d order
    ({ s with tasks := tasks }, some (.stopTasks running taskEntries taskEntries))
  | .stopTasks running (entry :: todo) taskEntries =>
    ({ s with sched := s.sched.stopTaskInference pid d entry.1 },
      some (.stopTasks running todo taskEntries))
  | .stopTasks running [] taskEntries =>
    ({ s with sched := s.sched.clearRunningRequests pid d }, some (.free running taskEntries))
  | .free running (entry :: taskEntries) =>
    (if entry.1 ∈ running then s else s.deallocateTask d pid entry.1,
      some (.deleteBound running entry.2 taskEntries))
  | .deleteBound running bound taskEntries =>
    (s.setBounds d ((s.bounds d).deleteBound bound ret).1, some (.free running taskEntries))
  | .free _ [] =>
    ({ s with handles := s.handles.releaseAllSharedMemoryHandlesForProcess (d : ℕ) pid }, none)

/-- One step of a thread, and what is left of it. -/
def threadStep (s : Service p n) (order : TaskEntries) (ret : ℤ) :
    Thread n → Service p n × Option (Thread n)
  | .deInit pid d rest phase =>
    match s.deInitStep pid d order ret phase with
    | (s, some phase) => (s, some (.deInit pid d rest phase))
    | (s, none) => (s, deInitAll pid rest)
  | .taskDeInit pid d taskId bound =>
    ({ s with sched := s.sched.stopTaskInference pid d taskId }, some (.deleteBound d bound))
  | .deleteBound d bound => (s.setBounds d ((s.bounds d).deleteBound bound ret).1, none)
  | .onTaskDrained pid taskId =>
    match s.pendingTaskFree.find? (toLex (pid, taskId)) with
    | none => (s, none)
    | some d =>
      ({ s with pendingTaskFree := s.pendingTaskFree.erase (toLex (pid, taskId)) },
        some (.freeing pid taskId d))
  | .freeing pid taskId d => (s.deallocateTask d pid taskId, none)

/-- One of the threads makes a step. -/
def advance (s : Service p n) (th : Thread n) (order : TaskEntries) (ret : ℤ) : Service p n :=
  if th ∈ s.threads then
    let (t, next) := s.threadStep order ret th
    { t with threads := next.toList ++ s.threads.erase th }
  else s

/-- What can happen next. -/
inductive Op (n : ℕ) where
  | handleAllocate (pid : ℤ) (d : Fin n) (taskId : ℤ) (size : ℕ) (forModel : Bool)
      (shm : Except ℤ SharedMemoryInfo)
  | handleDeallocate (pid : ℤ) (d : Fin n) (address : ℕ)
  | taskInit (pid : ℤ) (d : Fin n) (taskId : ℤ) (bound : NpuBoundOp) (modelMemorySize : ℕ)
      (isBlocked : Bool) (ret : ℤ)
  | taskDeInit (pid : ℤ) (d : Fin n) (taskId : ℤ)
  | addScheduler (env : Env) (request : Request) (d : Fin n)
  | finishJobs (env : Env) (d : Fin n) (response : Response)
  | onClientDisconnected (pid : ℤ)
  | advance (th : Thread n) (order : TaskEntries) (ret : ℤ)

def exec (s : Service p n) : Op n → Service p n
  | .handleAllocate pid d taskId size forModel shm =>
    (s.handleAllocate pid d taskId size forModel shm).1
  | .handleDeallocate pid d address => (s.handleDeallocate pid d address).1
  | .taskInit pid d taskId bound modelMemorySize isBlocked ret =>
    (s.taskInit pid d taskId bound modelMemorySize isBlocked ret).1
  | .taskDeInit pid d taskId => s.taskDeInit pid d taskId
  | .addScheduler env r d => s.addScheduler env r d
  | .finishJobs env d response => s.finishJobs env d response
  | .onClientDisconnected pid => s.onClientDisconnected pid
  | .advance th order ret => s.advance th order ret

/-- One step, subject to `ok`. -/
def Step (ok : Service p n → Op n → Prop) (s t : Service p n) : Prop :=
  ∃ op, ok s op ∧ t = s.exec op

end Service
end DxRt
