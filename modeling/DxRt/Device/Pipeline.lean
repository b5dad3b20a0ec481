import DxRt.Device.Registration
import DxRt.Lib.Workers

/-! lib/device_pool: the way of a request through the device pool.

    `RequestResponse::InferenceRequest` picks a device, acquires buffers and hands the request to
    the NFH layer, whose input worker encodes it and calls `InferenceRequest` of the device. There an
    input worker writes the input and passes the request to the driver; the answer goes to an output
    worker, which reads the output, and to an NFH output worker, which decodes it and completes the
    request; when its job is complete the request is reset. Each of these is a work item; the
    workers take the items up in any order. An item that is dropped was caught and only logged.

    The picker counts a device up and `CallBack` counts it down; the log records both, with the
    request. Left out are the contents of the buffers, the profiler, the fields of a request that no
    handler looks at, and `SKIP_INFERENCE_IO`, which is 0 unless a benchmark sets it. -/

namespace DxRt.Pipeline
open Workers

/-! ### Devices and requests -/

inductive DeviceType where
  | acc | std
  deriving DecidableEq

/-- `getFullLoad`. -/
def DeviceType.fullLoad : DeviceType → ℤ
  | .acc => 10
  | .std => 1

/-- `dxrt_request_acc_t`: the fields by which an answer finds its request. -/
structure RequestAcc where
  reqId : ℕ
  procId : ℕ
  deriving DecidableEq

/-- `dxrt_response_t`: the driver repeats the fields of the request. -/
structure Response where
  reqId : ℕ
  procId : ℕ
  deriving DecidableEq

structure OngoingCacheAllocation where
  slice : NpuMemoryCacheSlice
  taskId : ℤ
  deriving DecidableEq

/-- A device with its counter, and what is recorded of the tasks registered on it. -/
structure TaskLayer where
  type : DeviceType
  load : ℤ
  blocked : Bool
  tasks : AccDeviceTaskLayer
  ongoingRequests : SortedMap ℕ RequestAcc
  ongoingInputAllocations : SortedMap ℕ OngoingCacheAllocation

/-- The task of a request, with the devices it may run on and whether its model is of the normal
    type. -/
structure TaskRef (n : ℕ) where
  id : ℤ
  deviceIds : List (Fin n)
  isNormal : Bool

/-- A `Request` of the object pool; `ioSlice` is `_ioSlice` while `_ioSliceValid` is set, with the
    device the slice is from. -/
structure Request (n : ℕ) where
  useFlag : Bool
  task : TaskRef n
  ioSlice : Option (Fin n × NpuMemoryCacheSlice)
  processedDevId : Option (Fin n)
  bufferReleased : Bool

def Request.new (n : ℕ) : Request n := ⟨false, ⟨-1, [], false⟩, none, none, false⟩

/-- A device is counted up for a request, or down. -/
inductive LoadEvent (n : ℕ) where
  | pick (d : Fin n) (r : ℕ)
  | callBack (d : Fin n) (r : ℕ)
  deriving DecidableEq

structure DevicePool (n : ℕ) where
  taskLayers : Fin n → TaskLayer
  curDevIdx : ℕ
  requests : SortedMap ℕ (Request n)
  log : List (LoadEvent n)

/-- Service or library mode, the validation option, and the process id as `uint32_t`. -/
structure Config where
  runOnService : Bool
  npuValidateOpt : Bool
  pid : ℕ

/-- Where a request is on its way; `d` is a device, `r` the id of a request. -/
inductive Work (n : ℕ) where
  /-- Created, and no device picked. -/
  | created (r : ℕ)
  /-- After `PickOneDevice`. -/
  | picked (d : Fin n) (r : ℕ)
  /-- In the input queue of the NFH layer. -/
  | nfhInput (d : Fin n) (r : ℕ)
  /-- Encoded; the NFH worker calls `InferenceRequest`. -/
  | inferenceRequest (d : Fin n) (r : ℕ)
  /-- In `_inputHandlerQueue`. -/
  | input (d : Fin n) (r : ℕ)
  /-- Written; the input worker calls `HandleInferenceAcc`. -/
  | handleInferenceAcc (d : Fin n) (acc : RequestAcc)
  /-- Taken over by the driver or the service. -/
  | running (d : Fin n) (acc : RequestAcc)
  /-- In `_outputHandlerQueue`. -/
  | output (d : Fin n) (response : Response)
  /-- `OutputHandler`, before it erases the entry of `_ongoingRequests`. -/
  | eraseOngoing (d : Fin n) (r : ℕ)
  /-- In the output queue of the NFH layer. -/
  | nfhOutput (d : Fin n) (r : ℕ)
  /-- Completed; `Reset` comes with the completion of the job. -/
  | completed (r : ℕ)
  /-- `Reset` after it has cleared the use flag. -/
  | cleared (r : ℕ)
  deriving DecidableEq

/-- What the environment decides at one step: an exception where the step begins or after it has
    taken hold of its resources, the result of a transfer or of a decoding, whether the driver or the
    service takes the request over, the status of the response, and the block that `AllocateInfo`
    gives to a task without a cache. -/
structure Circumstances where
  throws : Bool
  throwsLate : Bool
  ret : ℤ
  sent : Bool
  status : ℕ
  slice : NpuMemoryCacheSlice

/-- A new request, or the end of a recovery. -/
inductive Arrival (n : ℕ) where
  | create (r : ℕ) (task : TaskRef n)
  | unblock (d : Fin n)

end DxRt.Pipeline

namespace DxRt

/-! ### Slices -/

namespace NpuMemoryCacheSlice

def isValid (slice : NpuMemoryCacheSlice) : Bool :=
  0 < slice.size ∧ slice.offset ≤ slice.info.size ∧ slice.size ≤ slice.info.size - slice.offset

/-- `hostPtr() != nullptr`. -/
def hasHostPtr (slice : NpuMemoryCacheSlice) : Bool := slice.info.ptr ≠ 0

end NpuMemoryCacheSlice

namespace TaskNpuMemoryCacheManager

/-- `getNpuMemoryCache`; `none` while it waits. -/
def getNpuMemoryCache (manager : TaskNpuMemoryCacheManager) :
    Option (NpuMemoryCacheSlice × TaskNpuMemoryCacheManager) :=
  manager.npuMemoryCaches.getLast?.map fun slice =>
    (slice, { manager with npuMemoryCaches := manager.npuMemoryCaches.dropLast })

/-- It is not checked whether the slice is there already. -/
def returnNpuMemoryCache (manager : TaskNpuMemoryCacheManager) (slice : NpuMemoryCacheSlice) :
    TaskNpuMemoryCacheManager :=
  { manager with npuMemoryCaches := manager.npuMemoryCaches ++ [slice] }

end TaskNpuMemoryCacheManager
end DxRt

namespace DxRt.Pipeline

namespace TaskLayer

def manager? (layer : TaskLayer) (taskId : ℤ) : Option TaskNpuMemoryCacheManager :=
  layer.tasks.taskNpuMemoryCaches.find? taskId

def setManager (layer : TaskLayer) (taskId : ℤ) (manager : TaskNpuMemoryCacheManager) :
    TaskLayer :=
  { layer with
    tasks := { layer.tasks with
      taskNpuMemoryCaches := layer.tasks.taskNpuMemoryCaches.insert taskId manager } }

/-- `Deallocate_npuBuf`; without a cache the block goes back to the service layer. -/
def deallocateNpuBuf (layer : TaskLayer) (slice : NpuMemoryCacheSlice) (taskId : ℤ) : TaskLayer :=
  match layer.manager? taskId with
  | some manager => layer.setManager taskId (manager.returnNpuMemoryCache slice)
  | none => layer

/-- `ReleaseInferenceCache`. -/
def releaseInferenceCache (layer : TaskLayer) (r : ℕ) : TaskLayer :=
  match layer.ongoingInputAllocations.find? r with
  | none => layer
  | some alloc =>
    { layer with
      ongoingInputAllocations := layer.ongoingInputAllocations.erase r }.deallocateNpuBuf
      alloc.slice alloc.taskId

/-- `peekInference`: what is not there is entered with zeros. -/
def peekInference (layer : TaskLayer) (r : ℕ) : TaskLayer × RequestAcc :=
  match layer.ongoingRequests.find? r with
  | some acc => (layer, acc)
  | none => ({ layer with ongoingRequests := layer.ongoingRequests.insert r ⟨0, 0⟩ }, ⟨0, 0⟩)

end TaskLayer
end DxRt.Pipeline

namespace DxRt.Pipeline
open Workers

namespace DevicePool
variable {n : ℕ} (cfg : Config) (s : DevicePool n) (e : Circumstances)

/-! ### Parts of the state -/

def request (r : ℕ) : Request n := (s.requests.find? r).getD (.new n)

def setRequest (r : ℕ) (req : Request n) : DevicePool n :=
  { s with requests := s.requests.insert r req }

def setLayer (d : Fin n) (layer : TaskLayer) : DevicePool n :=
  { s with taskLayers := Function.update s.taskLayers d layer }

def block (d : Fin n) : DevicePool n :=
  s.setLayer d { s.taskLayers d with blocked := true }

/-- `CallBack` on behalf of the request `r`. -/
def callBack (d : Fin n) (r : ℕ) : DevicePool n :=
  { s.setLayer d { s.taskLayers d with load := (s.taskLayers d).load - 1 } with
    log := .callBack d r :: s.log }

/-! ### Picking a device -/

/-- One turn of the loop of `pickDeviceIndex`: the device that is best so far, with its load. -/
def pickStep (best : Option (Fin n) × ℤ) (d : Fin n) : Option (Fin n) × ℤ :=
  if (s.taskLayers d).blocked then best
  else if (s.taskLayers d).load < (s.taskLayers d).type.fullLoad ∧ (s.taskLayers d).load < best.2
  then (some d, (s.taskLayers d).load)
  else best

/-- `pickDeviceIndex`; an error when all devices are blocked. -/
def pickDeviceIndex (deviceIds : List (Fin n)) : Except Unit (Option (Fin n)) :=
  if ∀ d ∈ deviceIds, (s.taskLayers d).blocked then .error ()
  else .ok ((deviceIds.rotate s.curDevIdx).foldl s.pickStep (none, 2 ^ 31 - 1)).1

/-- `pick` on the device that `WaitDevice` has chosen. -/
def pick (d : Fin n) (r : ℕ) : DevicePool n :=
  { s.setLayer d { s.taskLayers d with load := (s.taskLayers d).load + 1 } with
    curDevIdx := (s.curDevIdx + 1) % 1000000
    log := .pick d r :: s.log }

/-- `PickOneDevice`: it waits while all devices are full, for 3000 seconds at most. -/
def pickOneDevice (r : ℕ) : DevicePool n × List (Work n) :=
  match s.pickDeviceIndex (s.request r).task.deviceIds with
  | .error _ => (s, [])
  | .ok none => if e.throws then (s, []) else (s, [.created r])
  | .ok (some d) => (s.pick d r, [.picked d r])

/-! ### Before the driver -/

/-- `PrepareZeroCopyIo`; `none` while it waits for a slice. A slice that is not valid is neither
    used nor returned. -/
def prepareZeroCopyIo (d : Fin n) (r : ℕ) : Option (DevicePool n) :=
  let req := s.request r
  let layer := s.taskLayers d
  if layer.type = .std ∨ cfg.runOnService = false ∨ req.task.isNormal = false then some s
  else match layer.manager? req.task.id with
    | none => some s
    | some manager =>
      if layer.tasks.taskStaticConfigs.contains req.task.id = false then some s
      else match manager.getNpuMemoryCache with
        | none => none
        | some (slice, manager) =>
          if slice.isValid = false then some (s.setLayer d (layer.setManager req.task.id manager))
          else if slice.hasHostPtr = false then
            some (s.setLayer d
              (layer.setManager req.task.id (manager.returnNpuMemoryCache slice)))
          else some ((s.setLayer d (layer.setManager req.task.id manager)).setRequest r
            { req with ioSlice := some (d, slice) })

variable {cfg s e} in
/-- Either nothing is taken, or a slice of the cache: one that is not valid is gone, one that the
    host cannot see is put back, any other goes to the request. -/
theorem prepareZeroCopyIo_cases {s' : DevicePool n} {d : Fin n} {r : ℕ}
    (h : s.prepareZeroCopyIo cfg d r = some s') :
    s' = s ∨ ∃ manager slice rest, (s.taskLayers d).manager? (s.request r).task.id = some manager ∧
      manager.getNpuMemoryCache = some (slice, rest) ∧
      (slice.isValid = false ∧
          s' = s.setLayer d ((s.taskLayers d).setManager (s.request r).task.id rest) ∨
        slice.isValid = true ∧ s' = s.setLayer d
          ((s.taskLayers d).setManager (s.request r).task.id (rest.returnNpuMemoryCache slice)) ∨
        slice.isValid = true ∧
          s' = (s.setLayer d ((s.taskLayers d).setManager (s.request r).task.id rest)).setRequest r
            { s.request r with ioSlice := some (d, slice) }) := by
  simp only [prepareZeroCopyIo] at h
  by_cases hskip : (s.taskLayers d).type = .std ∨ cfg.runOnService = false ∨
      (s.request r).task.isNormal = false
  · rw [if_pos hskip] at h
    exact Or.inl (Option.some.inj h).symm
  rw [if_neg hskip] at h
  cases hmanager : (s.taskLayers d).manager? (s.request r).task.id with
  | none =>
    simp only [hmanager] at h
    exact Or.inl (Option.some.inj h).symm
  | some manager =>
    simp only [hmanager] at h
    by_cases hconfig :
        (s.taskLayers d).tasks.taskStaticConfigs.contains (s.request r).task.id = false
    · rw [if_pos hconfig] at h
      exact Or.inl (Option.some.inj h).symm
    rw [if_neg hconfig] at h
    cases hget : manager.getNpuMemoryCache with
    | none => simp [hget] at h
    | some p =>
      obtain ⟨slice, rest⟩ := p
      simp only [hget] at h
      refine Or.inr ⟨manager, slice, rest, rfl, hget, ?_⟩
      split_ifs at h with hvalid hptr <;> obtain rfl := Option.some.inj h
      · exact Or.inl ⟨hvalid, rfl⟩
      · exact Or.inr (Or.inl ⟨by simpa using hvalid, rfl⟩)
      · exact Or.inr (Or.inr ⟨by simpa using hvalid, rfl⟩)

/-- `RequestResponse::InferenceRequest` after the pick; a failure to get the buffers gives the
    device back. -/
def prepare (d : Fin n) (r : ℕ) : DevicePool n × List (Work n) :=
  if e.throws then (s.callBack d r, [])
  else match s.prepareZeroCopyIo cfg d r with
    | none => (s, [.picked d r])
    | some s => if e.throwsLate then (s, []) else (s, [.nfhInput d r])

/-- `handleInput` up to the call of `InferenceRequest`; an encoding that fails is only logged. -/
def handleInput (d : Fin n) (r : ℕ) : DevicePool n × List (Work n) :=
  if e.throws then (s, []) else (s, [.inferenceRequest d r])

/-- The slice for `InferenceRequestACC`: the one of the request, or one of the cache; `none` while
    it waits. -/
def cacheSlice (d : Fin n) (r : ℕ) : Option (NpuMemoryCacheSlice × DevicePool n) :=
  let req := s.request r
  match req.ioSlice with
  | some (_, slice) => some (slice, s.setRequest r { req with ioSlice := none })
  | none =>
    match (s.taskLayers d).manager? req.task.id with
    | none => some (e.slice, s)
    | some manager => manager.getNpuMemoryCache.map fun p =>
      (p.1, s.setLayer d ((s.taskLayers d).setManager req.task.id p.2))

variable {s e} in
theorem cacheSlice_cases {s' : DevicePool n} {d : Fin n} {r : ℕ} {slice : NpuMemoryCacheSlice}
    (h : s.cacheSlice e d r = some (slice, s')) :
    (∃ d', (s.request r).ioSlice = some (d', slice) ∧
        s' = s.setRequest r { s.request r with ioSlice := none }) ∨
      (s.request r).ioSlice = none ∧
        ((s.taskLayers d).manager? (s.request r).task.id = none ∧ s' = s ∨
          ∃ manager rest, (s.taskLayers d).manager? (s.request r).task.id = some manager ∧
            manager.getNpuMemoryCache = some (slice, rest) ∧
            s' = s.setLayer d ((s.taskLayers d).setManager (s.request r).task.id rest)) := by
  simp only [cacheSlice] at h
  cases hio : (s.request r).ioSlice with
  | some p =>
    obtain ⟨d', slice'⟩ := p
    simp only [hio] at h
    obtain ⟨rfl, rfl⟩ := Prod.mk.inj (Option.some.inj h)
    exact Or.inl ⟨d', rfl, rfl⟩
  | none =>
    simp only [hio] at h
    refine Or.inr ⟨rfl, ?_⟩
    cases hmanager : (s.taskLayers d).manager? (s.request r).task.id with
    | none =>
      simp only [hmanager] at h
      exact Or.inl ⟨rfl, (Prod.mk.inj (Option.some.inj h)).2.symm⟩
    | some manager =>
      simp only [hmanager] at h
      obtain ⟨p, hget, hp⟩ := Option.map_eq_some_iff.mp h
      obtain ⟨rfl, rfl⟩ := Prod.mk.inj hp
      exact Or.inr ⟨manager, p.2, rfl, hget, rfl⟩

/-- With the validation option the device is counted up once more. -/
def validateLoad (d : Fin n) : DevicePool n :=
  if cfg.npuValidateOpt then
    s.setLayer d { s.taskLayers d with load := (s.taskLayers d).load + 1 }
  else s

/-- The entries of `_ongoingRequests` and `_ongoingInputAllocations`. -/
def enter (d : Fin n) (r : ℕ) (slice : NpuMemoryCacheSlice) : DevicePool n :=
  s.setLayer d { s.taskLayers d with
    ongoingRequests := (s.taskLayers d).ongoingRequests.insert r ⟨r, cfg.pid⟩
    ongoingInputAllocations :=
      (s.taskLayers d).ongoingInputAllocations.insert r ⟨slice, (s.request r).task.id⟩ }

/-- `InferenceRequestACC`; `none` when an assertion ends the process. -/
def inferenceRequestACC (d : Fin n) (r : ℕ) : Option (DevicePool n × List (Work n)) :=
  if (s.taskLayers d).tasks.taskStaticConfigs.contains (s.request r).task.id = false then none
  else match s.cacheSlice e d r with
    | none => some (s, [.inferenceRequest d r])
    | some (slice, s) =>
      if slice.isValid = false then none
      else if e.throwsLate then some (s.validateLoad cfg d, [])
      else some ((s.validateLoad cfg d).enter cfg d r slice, [.input d r])

/-- `InferenceRequest` of either kind of device; on the other kind the result of the write is
    ignored. -/
def inferenceRequest (d : Fin n) (r : ℕ) : Option (DevicePool n × List (Work n)) :=
  if e.throws then some (s, [])
  else match (s.taskLayers d).type with
  | .acc => s.inferenceRequestACC cfg e d r
  | .std => some (s, if e.sent then [.running d ⟨r, cfg.pid⟩] else [])

/-- `InputHandler` up to `HandleInferenceAcc`. A write that fails blocks the device, and ends the
    process when there is a service. -/
def inputHandler (d : Fin n) (r : ℕ) : Option (DevicePool n × List (Work n)) :=
  let (layer, acc) := (s.taskLayers d).peekInference r
  let s := s.setLayer d layer
  if e.throws then some (s, [])
  else if cfg.runOnService ∧ layer.ongoingInputAllocations.contains r = false then none
  else if e.ret < 0 then if cfg.runOnService then none else some (s.block d, [])
  else some (s, [.handleInferenceAcc d acc])

/-- `HandleInferenceAcc`: the driver is asked again and again, the service once. -/
def handleInferenceAcc (d : Fin n) (acc : RequestAcc) : DevicePool n × List (Work n) :=
  if e.throws then (s, [])
  else if e.sent then (s, [.running d acc])
  else if cfg.runOnService then (s, [])
  else (s, [.handleInferenceAcc d acc])

/-! ### After the driver -/

/-- Errors of the device that are left to the recovery. -/
def isRecoverable (status : ℕ) : Bool :=
  100 ≤ status ∧ status < 200 ∨ status = 300 ∨ 400 ≤ status ∧ status < 500

/-- `OutputReceiverThread` in library mode, `ProcessResponseFromService` with a service, `ThreadImpl`
    of the other kind of device. -/
def receive (d : Fin n) (acc : RequestAcc) : Option (DevicePool n × List (Work n)) :=
  match (s.taskLayers d).type with
  | .std =>
    if e.ret ≠ 0 then some (s, [.running d acc])
    else if e.throws then none
    else some (s.callBack d acc.reqId, [.completed acc.reqId])
  | .acc =>
    if cfg.runOnService = true ∨ e.status = 0 then some (s, [.output d ⟨acc.reqId, acc.procId⟩])
    else if isRecoverable e.status then some (s.block d, [])
    else none

/-- `OutputHandler`. A read that fails blocks the device, and ends the process when there is a
    service. -/
def outputHandler (d : Fin n) (response : Response) : Option (DevicePool n × List (Work n)) :=
  if response.procId = 0 ∨ response.procId ≠ cfg.pid then some (s, [])
  else
    let r := response.reqId
    let (layer, _) := (s.taskLayers d).peekInference r
    let s := (s.setLayer d layer).setRequest r
      { s.request r with processedDevId := some d }
    if e.throws then some (s, [])
    else if layer.ongoingInputAllocations.contains r = false ∨
        layer.tasks.taskStaticConfigs.contains (s.request r).task.id = false then none
    else if e.ret ≠ 0 then if cfg.runOnService then none else some (s.block d, [])
    else if e.throwsLate then some (s.callBack d r, [])
    else some (s.callBack d r, [.nfhOutput d r, .eraseOngoing d r])

def eraseOngoing (d : Fin n) (r : ℕ) : DevicePool n :=
  s.setLayer d { s.taskLayers d with
    ongoingRequests := (s.taskLayers d).ongoingRequests.erase r }

/-- `handleOutput`: a request whose output cannot be decoded is never completed. -/
def handleOutput (r : ℕ) : DevicePool n × List (Work n) :=
  if e.throws ∨ e.ret ≠ 0 then (s, []) else (s, [.completed r])

/-- `releaseBuffers`: the slice goes back on the device that has processed the request. -/
def releaseBuffers (r : ℕ) : DevicePool n :=
  let req := s.request r
  if req.bufferReleased then s
  else
    let s := match req.processedDevId with
      | some d => s.setLayer d ((s.taskLayers d).releaseInferenceCache r)
      | none => s
    s.setRequest r { req with bufferReleased := true }

/-- `Reset` up to the use flag. -/
def reset (r : ℕ) : DevicePool n :=
  let s := s.releaseBuffers r
  s.setRequest r { s.request r with useFlag := false }

/-- The last statement of `Reset`. -/
def clearReleased (r : ℕ) : DevicePool n :=
  s.setRequest r { s.request r with bufferReleased := false }

/-! ### Steps -/

def exec : Work n → Option (DevicePool n × List (Work n))
  | .created r => some (s.pickOneDevice e r)
  | .picked d r => some (s.prepare cfg e d r)
  | .nfhInput d r => some (s.handleInput e d r)
  | .inferenceRequest d r => s.inferenceRequest cfg e d r
  | .input d r => s.inputHandler cfg e d r
  | .handleInferenceAcc d acc => some (s.handleInferenceAcc cfg e d acc)
  | .running d acc => s.receive cfg e d acc
  | .output d response => s.outputHandler cfg e d response
  | .eraseOngoing d r => some (s.eraseOngoing d r, [])
  | .nfhOutput _ r => some (s.handleOutput e r)
  | .completed r => some (s.reset r, [.cleared r])
  | .cleared r => some (s.clearReleased r, [])

/-- `Request::Create` takes an object that is not in use; neither the device it was processed on nor
    the flag for released buffers is reset. A recovery that has succeeded unblocks its device. -/
def arrive : Arrival n → Option (DevicePool n × List (Work n))
  | .create r task =>
    if (s.request r).useFlag then none
    else some (s.setRequest r { s.request r with useFlag := true, task := task, ioSlice := none },
      [.created r])
  | .unblock d => some (s.setLayer d { s.taskLayers d with blocked := false }, [])

end DevicePool

def system (n : ℕ) (cfg : Config) : System (DevicePool n) (Work n) Circumstances (Arrival n) where
  exec s w e := s.exec cfg e w
  arrive s a := s.arrive a

/-- The pool before the first request. -/
def DevicePool.init {n : ℕ} (type : Fin n → DeviceType) (tasks : Fin n → AccDeviceTaskLayer) :
    DevicePool n where
  taskLayers d := ⟨type d, 0, false, tasks d, .empty, .empty⟩
  curDevIdx := 0
  requests := .empty
  log := []

end DxRt.Pipeline
