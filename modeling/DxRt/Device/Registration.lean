import DxRt.Device.ServiceLayer

/-! lib/device_pool/acc_device_task_layer_register_pcie.cpp, acc_device_task_layer.cpp,
    npu_memory_cache.cpp: registering a task on a device, and releasing it.

    `RegisterTask` reserves the weight and the rmap of the model, tries the rmap again when it lies
    above the weight, writes both to the device, reserves and writes the PPU binary, checks the model
    by reading it back, and reserves the cache for as many buffers as it can get. Every failure has
    a rollback of its own. `Release` works from what `RegisterTask` has left in the maps of the
    device. Both are programs over the service layer; the maps are passed along. -/

namespace DxRt

/-! ### Tasks and devices -/

/-- The part of `dxrt_model_t` that registration reads. -/
structure Model where
  rmap : MemInfo
  weight : MemInfo
  outputAllOffset : ℕ
  lastOutputOffset : ℕ
  lastOutputSize : ℕ

structure TaskData where
  id : ℤ
  inputSize : ℤ
  outputSize : ℤ
  encodedInputSize : ℤ
  outputMemSize : ℕ
  bufferCount : ℤ
  npuModel : Model
  isPPCPU : Bool
  data : Option (List (List UInt8))

/-- The offsets in `TaskStaticConfig`, each a 32-bit field. -/
structure TaskStaticConfig where
  cmdOffset : ℕ
  weightOffset : ℕ
  customOffset : ℕ
  deriving DecidableEq

structure ModelMemoryInfos where
  rmapMemInfo : SharedMemoryInfo
  weightMemInfo : SharedMemoryInfo
  ppuMemInfo : SharedMemoryInfo

/-- The part of a block that is handed to one request. -/
structure NpuMemoryCacheSlice where
  info : SharedMemoryInfo
  offset : ℕ
  size : ℕ
  deriving DecidableEq

/-- The slices of a task that are not in use, the last one first to go, and the block they are
    cut from. -/
structure TaskNpuMemoryCacheManager where
  npuMemoryCaches : List NpuMemoryCacheSlice
  npuMemoryInfo : SharedMemoryInfo

/-- The maps of `AccDeviceTaskLayer`, by task id. -/
structure AccDeviceTaskLayer where
  modelMemoryInfos : SortedMap ℤ ModelMemoryInfos
  taskNpuMemoryCaches : SortedMap ℤ TaskNpuMemoryCacheManager
  ppuBinaryOffsets : SortedMap ℤ ℕ
  taskStaticConfigs : SortedMap ℤ TaskStaticConfig

/-- How `RegisterTask` ends; a failed `DXRT_ASSERT` ends the process. -/
inductive Outcome where
  | returned (ret : ℤ)
  | threw
  | aborted
  deriving DecidableEq

/-- How the body of the `try` block ends early. -/
inductive Exit where
  | failed | threw | aborted
  deriving DecidableEq

/-- A value-initialised `SharedMemoryInfo`. -/
def SharedMemoryInfo.zero : SharedMemoryInfo := ⟨0, 0, 0, 0, 0, 0⟩

def ModelMemoryInfos.zero : ModelMemoryInfos := ⟨.zero, .zero, .zero⟩

def TaskNpuMemoryCacheManager.make (size : ℤ) (count : ℕ) (info : SharedMemoryInfo) :
    TaskNpuMemoryCacheManager where
  npuMemoryCaches := (List.range count).map fun (i : ℕ) =>
    ⟨info, HandleTable.toUint64 (size * i), HandleTable.toUint64 size⟩
  npuMemoryInfo := info

def AccDeviceTaskLayer.init : AccDeviceTaskLayer := ⟨.empty, .empty, .empty, .empty⟩

/-- `modelMemoryInfos()[taskId]`. -/
def AccDeviceTaskLayer.memInfos (dev : AccDeviceTaskLayer) (taskId : ℤ) : ModelMemoryInfos :=
  (dev.modelMemoryInfos.find? taskId).getD .zero

def AccDeviceTaskLayer.setMemInfos (dev : AccDeviceTaskLayer) (taskId : ℤ)
    (memInfos : ModelMemoryInfos) : AccDeviceTaskLayer :=
  { dev with modelMemoryInfos := dev.modelMemoryInfos.insert taskId memInfos }

namespace TaskData

/-- `data_align` on `int`. -/
def dataAlign (x a : ℤ) : ℤ := a * x.tdiv a + if 0 < x.tmod a then a else 0

/-- The size of a cache slice: it covers the input and the output wherever the model puts it. -/
def blockSize (task : TaskData) : ℤ :=
  let alignedInputSize := dataAlign task.encodedInputSize 64
  let outputDelta : ℤ := if task.npuModel.outputAllOffset ≠ 0 then task.npuModel.outputAllOffset
    else alignedInputSize
  max (alignedInputSize + task.outputMemSize)
    (outputDelta + task.npuModel.lastOutputOffset + task.npuModel.lastOutputSize)

/-- The PPU binary, when there is one to write. -/
def ppuBinary (task : TaskData) : Option (List UInt8) :=
  if task.isPPCPU then
    match task.data with
    | some (_ :: _ :: ppu :: _) => if ppu.isEmpty then none else some ppu
    | _ => none
  else none

end TaskData

/-! ### Calls of the service layer -/

abbrev LayerProgram (α : Type) : Type := Program LayerCall LayerCall.Ans α

namespace LayerProgram

def allocateInfo (taskId : ℤ) (type : MemoryType) (size : ℕ) : LayerProgram SharedMemoryInfo :=
  Program.perform (LayerCall.allocateInfo taskId type size)

def deAllocateInfo (info : SharedMemoryInfo) : LayerProgram Unit :=
  Program.perform (LayerCall.deAllocateInfo info)

/-- `DeAllocate(deviceId, addr)`: the address is passed as block id and as physical address. -/
def deAllocate (addr : ℤ) : LayerProgram Unit :=
  deAllocateInfo ⟨addr, 0, 0, 0, HandleTable.toUint64 addr, -1⟩

/-- `if (info.block_id > 0) DeAllocateInfo(info)`. -/
def deAllocateValid (info : SharedMemoryInfo) : LayerProgram Unit :=
  if 0 < info.blockId then deAllocateInfo info else pure ()

/-- `if (info.block_id > 0) DeAllocate(info.block_id)`. -/
def deAllocateBlock (info : SharedMemoryInfo) : LayerProgram Unit :=
  if 0 < info.blockId then deAllocate info.blockId else pure ()

/-- A write, and how the `try` block ends early because of it. -/
def dmaWrite (type : MemoryType) (info : SharedMemoryInfo) : LayerProgram (Option Exit) := do
  match ← (Program.perform (LayerCall.dmaWrite type info) : LayerProgram Dma) with
  | .throws => return some .threw
  | .returns ret _ => return if ret = 0 then none else some .aborted

/-- The lambda `verify`: 0 when what is read is what was written; `none` when the read throws. -/
def verify (type : MemoryType) (info : SharedMemoryInfo) : LayerProgram (Option ℕ) := do
  match ← (Program.perform (LayerCall.dmaRead type info) : LayerProgram Dma) with
  | .throws => return none
  | .returns ret same => return some (if ret = 0 ∧ same = true then 0 else 1)

end LayerProgram

namespace AccDeviceTaskLayer
open LayerProgram

/-! ### RegisterTask -/

/-- The model blocks; the flag tells whether registration goes on. An rmap above the weight is
    replaced by a second one, while the first is still reserved. -/
def allocateModel (taskId : ℤ) (model : Model) :
    LayerProgram (SharedMemoryInfo × SharedMemoryInfo × Bool) := do
  let weight ← allocateInfo taskId .modelWeight model.weight.size
  let rmap ← allocateInfo taskId .modelRmap model.rmap.size
  if weight.physAddrOffset < rmap.physAddrOffset then
    let temp := rmap
    let rmap ← allocateInfo taskId .modelRmap model.rmap.size
    if rmap.blockId ≤ 0 then
      deAllocateValid weight
      deAllocateValid temp
      return (weight, rmap, false)
    else
      deAllocateValid temp
      checkModel weight rmap
  else checkModel weight rmap
where
  /-- The checks that follow, whichever rmap it is. -/
  checkModel (weight rmap : SharedMemoryInfo) :
      LayerProgram (SharedMemoryInfo × SharedMemoryInfo × Bool) := do
    if rmap.blockId ≤ 0 then
      deAllocateValid weight
      return (weight, rmap, false)
    else if weight.blockId ≤ 0 then
      deAllocateInfo rmap
      return (weight, rmap, false)
    else return (weight, rmap, true)

/-- The two writes of the model. -/
def writeModel (weight rmap : SharedMemoryInfo) : LayerProgram (Option Exit) := do
  match ← dmaWrite .modelRmap rmap with
  | some exit => return some exit
  | none => dmaWrite .modelWeight weight

/-- The PPU binary. Offset and memory information are stored after the write only. -/
def writePpuBinary (dev : AccDeviceTaskLayer) (task : TaskData) :
    LayerProgram (AccDeviceTaskLayer × Option Exit) := do
  match task.ppuBinary with
  | none => return (dev, none)
  | some ppu =>
    let ppuMemory ← allocateInfo task.id .modelPpuBinary ppu.length
    if ppuMemory.blockId ≤ 0 then return (dev, some .failed)
    else
      match ← dmaWrite .modelPpuBinary ppuMemory with
      | some exit => return (dev, some exit)
      | none =>
        return ({ dev.setMemInfos task.id
            { dev.memInfos task.id with ppuMemInfo := ppuMemory } with
          ppuBinaryOffsets :=
            dev.ppuBinaryOffsets.insert task.id (ppuMemory.physAddrOffset % 2 ^ 32) }, none)

/-- Both parts of the model are read back, unless one is empty. -/
def verifyModel (model : Model) (weight rmap : SharedMemoryInfo) :
    LayerProgram (Option Exit) := do
  if 0 < model.rmap.size ∧ 0 < model.weight.size then
    match ← verify .modelRmap rmap with
    | none => return some .threw
    | some fails =>
      match ← verify .modelWeight weight with
      | none => return some .threw
      | some fails' => return if fails + fails' = 0 then none else some .aborted
  else return none

/-- `registerMemoryCache`; `emplace` leaves a manager that is there. -/
def registerMemoryCache (dev : AccDeviceTaskLayer) (taskId : ℤ) (size : ℤ) (count : ℕ) :
    LayerProgram (AccDeviceTaskLayer × Bool) := do
  let info ← allocateInfo taskId .inputOutput (HandleTable.toUint64 (size * count))
  if 0 ≤ info.fd ∨ 0 ≤ info.blockId then
    return ({ dev with
      taskNpuMemoryCaches :=
        if dev.taskNpuMemoryCaches.contains taskId then dev.taskNpuMemoryCaches
        else dev.taskNpuMemoryCaches.insert taskId (.make size count info) }, true)
  else return (dev, false)

/-- The loop over `npu_cache_count`: fewer buffers each time. -/
def registerCache (dev : AccDeviceTaskLayer) (taskId : ℤ) (size : ℤ) :
    ℕ → LayerProgram (AccDeviceTaskLayer × Bool)
  | 0 => return (dev, false)
  | count + 1 => do
    let (dev, ok) ← registerMemoryCache dev taskId size (count + 1)
    if ok then return (dev, true) else registerCache dev taskId size count

def unRegisterMemoryCache (dev : AccDeviceTaskLayer) (taskId : ℤ) :
    LayerProgram AccDeviceTaskLayer := do
  match dev.taskNpuMemoryCaches.find? taskId with
  | none => return dev
  | some manager =>
    deAllocateInfo manager.npuMemoryInfo
    return { dev with taskNpuMemoryCaches := dev.taskNpuMemoryCaches.erase taskId }

/-- `info.block_id = 0` after the block has been given back. -/
def dropId (info : SharedMemoryInfo) : SharedMemoryInfo :=
  if 0 < info.blockId then { info with blockId := 0 } else info

/-- The second half of `rollbackTaskRegistration`: weight, rmap and cache. -/
def rollbackModel (dev : AccDeviceTaskLayer) (taskId : ℤ) : LayerProgram AccDeviceTaskLayer := do
  let memInfos := dev.memInfos taskId
  deAllocateValid memInfos.weightMemInfo
  deAllocateValid memInfos.rmapMemInfo
  unRegisterMemoryCache (dev.setMemInfos taskId
    ⟨dropId memInfos.rmapMemInfo, dropId memInfos.weightMemInfo, memInfos.ppuMemInfo⟩) taskId

/-- The lambda `rollbackTaskRegistration`. The block id of the PPU binary stays. -/
def rollback (dev : AccDeviceTaskLayer) (taskId : ℤ) : LayerProgram AccDeviceTaskLayer := do
  if dev.ppuBinaryOffsets.contains taskId then
    deAllocateValid (dev.memInfos taskId).ppuMemInfo
    rollbackModel { dev with ppuBinaryOffsets := dev.ppuBinaryOffsets.erase taskId } taskId
  else rollbackModel dev taskId

/-- The end of the `try` block: the model is checked, the cache is reserved. -/
def verifyAndCache (dev : AccDeviceTaskLayer) (task : TaskData) (weight rmap : SharedMemoryInfo) :
    LayerProgram (AccDeviceTaskLayer × Option Exit) := do
  match ← verifyModel task.npuModel weight rmap with
  | some exit => return (dev, some exit)
  | none =>
    let (dev, ok) ← registerCache dev task.id task.blockSize task.bufferCount.toNat
    return (dev, if ok then none else some .failed)

/-- The body of the `try` block. -/
def tryRegister (dev : AccDeviceTaskLayer) (task : TaskData) (weight rmap : SharedMemoryInfo) :
    LayerProgram (AccDeviceTaskLayer × Option Exit) := do
  match ← writeModel weight rmap with
  | some exit => return (dev, some exit)
  | none =>
    match ← writePpuBinary dev task with
    | (dev, some exit) => return (dev, some exit)
    | (dev, none) => verifyAndCache dev task weight rmap

/-- The `TaskStaticConfig` of a task whose blocks are reserved. -/
def staticConfig (dev : AccDeviceTaskLayer) (taskId : ℤ) (weight rmap : SharedMemoryInfo) :
    TaskStaticConfig where
  cmdOffset := rmap.physAddrOffset % 2 ^ 32
  weightOffset := weight.physAddrOffset % 2 ^ 32
  customOffset := (dev.ppuBinaryOffsets.find? taskId).getD 0

def registerTask (dev : AccDeviceTaskLayer) (task : TaskData) :
    LayerProgram (AccDeviceTaskLayer × Outcome) := do
  if task.inputSize ≤ 0 ∨ task.outputSize ≤ 0 then return (dev, .aborted)
  else
    let (weight, rmap, ok) ← allocateModel task.id task.npuModel
    let dev := dev.setMemInfos task.id
      { dev.memInfos task.id with rmapMemInfo := rmap, weightMemInfo := weight }
    if ok = false then return (dev, .returned (-1))
    else
      match ← tryRegister dev task weight rmap with
      | (dev, none) =>
        return ({ dev with
          taskStaticConfigs := dev.taskStaticConfigs.insert task.id
            (dev.staticConfig task.id weight rmap) }, .returned 0)
      | (dev, some .failed) => return (← rollback dev task.id, .returned (-1))
      | (dev, some .threw) => return (← rollback dev task.id, .threw)
      | (dev, some .aborted) => return (dev, .aborted)

/-! ### Release -/

/-- The blocks that `Release` finds in the memory information of the task, or the offsets of its
    configuration when there is no such information. -/
def releaseBlocks (dev : AccDeviceTaskLayer) (taskId : ℤ) (fallback : TaskStaticConfig) :
    LayerProgram AccDeviceTaskLayer := do
  match dev.modelMemoryInfos.find? taskId with
  | some memInfos =>
    deAllocateBlock memInfos.rmapMemInfo
    deAllocateBlock memInfos.weightMemInfo
    if 0 < memInfos.ppuMemInfo.size then deAllocateBlock memInfos.ppuMemInfo
    return { dev with modelMemoryInfos := dev.modelMemoryInfos.erase taskId }
  | none =>
    deAllocate fallback.cmdOffset
    deAllocate fallback.weightOffset
    return dev

/-- The offset of the PPU binary is passed to `DeAllocate` as well. -/
def releasePpuBinary (dev : AccDeviceTaskLayer) (taskId : ℤ) : LayerProgram AccDeviceTaskLayer := do
  match dev.ppuBinaryOffsets.find? taskId with
  | none => return dev
  | some offset =>
    if offset ≠ 0 ∧ offset ≠ 2 ^ 32 - 1 then deAllocate offset
    return { dev with ppuBinaryOffsets := dev.ppuBinaryOffsets.erase taskId }

def release (dev : AccDeviceTaskLayer) (taskId : ℤ) : LayerProgram AccDeviceTaskLayer := do
  let fallback := (dev.taskStaticConfigs.find? taskId).getD ⟨0, 0, 0⟩
  let dev := { dev with taskStaticConfigs := dev.taskStaticConfigs.erase taskId }
  let dev ← unRegisterMemoryCache dev taskId
  let dev ← releaseBlocks dev taskId fallback
  releasePpuBinary dev taskId

end AccDeviceTaskLayer
end DxRt
