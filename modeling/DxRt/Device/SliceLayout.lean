import DxRt.Device.Pipeline
import DxRt.Model.OutputBuffer

/-! lib/device_pool/inference_context.cpp, acc_device_task_layer.cpp: where the input and the output
    of a request lie in its cache slice.

    The input is at the start of the slice. The output comes after the aligned input, or after
    `output_all_offset` when the model has one, at the offset of the last output. The driver request,
    the host pointers of zero-copy and the views of `OutputHandler` work this out each on their own;
    how long the slice is, `RegisterTask` has worked out before. -/

namespace DxRt
open DeepxRmapinfo TaskData

/-! ### Addresses in a slice -/

namespace NpuMemoryCacheSlice

def deviceAddress (slice : NpuMemoryCacheSlice) : ℕ :=
  (slice.info.physAddr + slice.offset) % 2 ^ 64

/-- The host address of a slice that has one. -/
def hostPtr (slice : NpuMemoryCacheSlice) : ℕ := (slice.info.ptr + slice.offset) % 2 ^ 64

end NpuMemoryCacheSlice

/-- A `SharedMemoryView` of a block; an offset in a block does not reach 2^64. -/
def SharedMemoryInfo.view (info : SharedMemoryInfo) (offset size : ℕ) : NpuMemoryCacheSlice :=
  ⟨info, offset, size⟩

theorem SharedMemoryInfo.deviceAddress_view (info : SharedMemoryInfo) (offset size : ℕ) :
    (info.view offset size).deviceAddress = (info.physAddr + offset) % 2 ^ 64 := rfl

theorem SharedMemoryInfo.hostPtr_view (info : SharedMemoryInfo) (offset size : ℕ) :
    (info.view offset size).hostPtr = (info.ptr + offset) % 2 ^ 64 := rfl

/-! ### The driver request -/

/-- The part of `TaskStaticConfig` about input and output. -/
structure TaskIoConfig where
  modelType : ModelType
  memoryBase : ℕ
  inputSize : ℕ
  outputSize : ℕ
  lastOutputOffset : ℕ
  outputAllOffset : ℕ

/-- The addresses in `InferenceSlimRequest`. -/
structure InferenceSlimRequest where
  inputHostAddr : ℕ
  inputDeviceOffset : ℕ
  outputHostAddr : ℕ

/-- The input and the output of `dxrt_request_acc_t`. -/
structure DriverIo where
  input : MemInfo
  output : MemInfo

def buildDriverRequest (config : TaskIoConfig) (slim : InferenceSlimRequest) : DriverIo :=
  let alignedInput := alignUint32 config.inputSize
  let outputDelta := if config.outputAllOffset ≠ 0 then config.outputAllOffset else alignedInput
  { input := ⟨slim.inputHostAddr, config.memoryBase, slim.inputDeviceOffset % 2 ^ 32,
      config.inputSize⟩
    output := ⟨slim.outputHostAddr, config.memoryBase,
      (slim.inputDeviceOffset % 2 ^ 32 + outputDelta + config.lastOutputOffset) % 2 ^ 32,
      config.outputSize⟩ }

namespace NpuTask
variable (task : NpuTask)

/-- The task as `RegisterTask` sees it, sizes as `int`. -/
def toTaskData (id bufferCount : ℤ) (data : List (List UInt8)) : TaskData where
  id := id
  inputSize := MemFDService.toInt32 task.inputSize
  outputSize := MemFDService.toInt32 task.outputSize
  encodedInputSize := MemFDService.toInt32 task.encodedInputSize
  outputMemSize := task.outputMemSize
  bufferCount := bufferCount
  npuModel := task.npuModel.toModel
  isPPCPU := task.npuModel.type = .ppcpu
  data := some data

/-- The `TaskStaticConfig` that `RegisterTask` fills in. -/
def ioConfig (memoryBase : ℕ) : TaskIoConfig where
  modelType := task.npuModel.type
  memoryBase := memoryBase
  inputSize := toUint32 (MemFDService.toInt32 task.encodedInputSize)
  outputSize := task.npuModel.lastOutputSize
  lastOutputOffset := task.npuModel.lastOutputOffset
  outputAllOffset := task.npuModel.outputAllOffset

/-- The driver request for a slice. -/
def driverRequest (memoryBase inputHostAddr outputHostAddr : ℕ) (slice : NpuMemoryCacheSlice) :
    DriverIo :=
  buildDriverRequest (task.ioConfig memoryBase)
    ⟨inputHostAddr, slice.deviceAddress, outputHostAddr⟩

/-! ### Host pointers and views -/

/-- `PrepareZeroCopyIo`: `encoded_inputs_ptr` and `encoded_outputs_ptr` when the slice is used. -/
def zeroCopyPointers (memoryBase : ℕ) (runOnService : Bool) (slice : NpuMemoryCacheSlice) :
    Option (ℕ × ℕ) :=
  let cfg := task.ioConfig memoryBase
  if runOnService = false ∨ cfg.modelType ≠ .normal then none
  else if slice.isValid = false ∨ slice.hasHostPtr = false then none
  else
    let outputDelta := if cfg.outputAllOffset ≠ 0 then cfg.outputAllOffset
      else alignUint32 cfg.inputSize
    let outputOffsetInSlice := outputDelta + cfg.lastOutputOffset
    some (slice.hostPtr, (slice.hostPtr + outputOffsetInSlice) % 2 ^ 64)

/-- `outputOffsetInSlice` of `OutputHandler`, with the size of the task itself. -/
def outputOffsetInSlice : ℕ :=
  (if task.npuModel.outputAllOffset ≠ 0 then task.npuModel.outputAllOffset
    else alignUint32 task.encodedInputSize) + task.npuModel.lastOutputOffset

/-- What `InputHandler` writes. -/
def inputView (slice : NpuMemoryCacheSlice) : NpuMemoryCacheSlice :=
  slice.info.view slice.offset (toUint32 (MemFDService.toInt32 task.encodedInputSize))

/-- What `OutputHandler` reads. -/
def outputView (slice : NpuMemoryCacheSlice) : NpuMemoryCacheSlice :=
  slice.info.view (slice.offset + task.outputOffsetInSlice) task.npuModel.lastOutputSize

/-- The number of boxes that are read, when the response has `ppuFilterNum` of `unitSize` bytes. -/
def validatedFilterNum (unitSize ppuFilterNum : ℕ) : ℕ :=
  let expectedMaxBoxes := HandleTable.toUint64 (MemFDService.toInt32 task.outputSize) / unitSize
  if expectedMaxBoxes < ppuFilterNum then expectedMaxBoxes % 2 ^ 32 else ppuFilterNum

/-- What `OutputHandler` reads of a PPCPU model: the boxes after the output. -/
def ppcpuOutputView (slice : NpuMemoryCacheSlice) (unitSize ppuFilterNum : ℕ) :
    NpuMemoryCacheSlice :=
  slice.info.view (slice.offset + task.outputOffsetInSlice + task.npuModel.lastOutputSize)
    (unitSize * task.validatedFilterNum unitSize ppuFilterNum % 2 ^ 32)

/-- The most that is read after the output: `output_size()` bytes. -/
def filteredView (slice : NpuMemoryCacheSlice) : NpuMemoryCacheSlice :=
  slice.info.view (slice.offset + task.outputOffsetInSlice + task.npuModel.lastOutputSize)
    task.outputSize

end NpuTask

namespace SliceLayout

/-! ### All paths agree -/

/-- The driver request, the host pointers and the views are about the same bytes of the slice. -/
structure SameByte (task : NpuTask) (slice : NpuMemoryCacheSlice) : Prop where
  input : ∀ base inputAddr outputAddr,
    (task.driverRequest base inputAddr outputAddr slice).input.offset =
      (task.inputView slice).deviceAddress % 2 ^ 32
  output : ∀ base inputAddr outputAddr,
    (task.driverRequest base inputAddr outputAddr slice).output.offset =
      (task.outputView slice).deviceAddress % 2 ^ 32
  host : ∀ base runOnService pointers,
    task.zeroCopyPointers base runOnService slice = some pointers →
      pointers = ((task.inputView slice).hostPtr, (task.outputView slice).hostPtr)

/-- A 32-bit number is the same after a cast to `int` and back. -/
theorem toUint32_toInt32 {x : ℕ} (h : x < 2 ^ 32) : toUint32 (MemFDService.toInt32 x) = x := by
  rw [OutputBuffer.toInt32_eq, toUint32]
  split_ifs <;> omega

theorem sameByte {task : NpuTask} (h : task.encodedInputSize < 2 ^ 32)
    (slice : NpuMemoryCacheSlice) : SameByte task slice := by
  have hsize := toUint32_toInt32 h
  refine ⟨fun base inputAddr outputAddr => ?_, fun base inputAddr outputAddr => ?_,
    fun base runOnService pointers hpointers => ?_⟩
  · rw [NpuTask.inputView, SharedMemoryInfo.deviceAddress_view,
      ← NpuMemoryCacheSlice.deviceAddress, NpuTask.driverRequest, buildDriverRequest]
  · rw [NpuTask.outputView, SharedMemoryInfo.deviceAddress_view, NpuTask.outputOffsetInSlice]
    simp only [NpuTask.driverRequest, buildDriverRequest, NpuTask.ioConfig, hsize,
      NpuMemoryCacheSlice.deviceAddress]
    omega
  · simp only [NpuTask.zeroCopyPointers, NpuTask.ioConfig, hsize] at hpointers
    split at hpointers
    · cases hpointers
    · split at hpointers
      · cases hpointers
      · rw [← Option.some.inj hpointers, NpuTask.inputView, NpuTask.outputView,
          SharedMemoryInfo.hostPtr_view, SharedMemoryInfo.hostPtr_view,
          NpuTask.outputOffsetInSlice, NpuMemoryCacheSlice.hostPtr, Nat.mod_add_mod, add_assoc]

/-- The boxes that are read are at most as many bytes as the output of the task. -/
theorem ppcpuOutputView_size_le {task : NpuTask} (h : task.outputSize < 2 ^ 31)
    (slice : NpuMemoryCacheSlice) (unitSize ppuFilterNum : ℕ) :
    (task.ppcpuOutputView slice unitSize ppuFilterNum).size ≤ task.outputSize := by
  have hcast : HandleTable.toUint64 (MemFDService.toInt32 task.outputSize) = task.outputSize := by
    rw [MemFDService.toInt32_of_lt h, HandleTable.toUint64]
    omega
  have hboxes : task.validatedFilterNum unitSize ppuFilterNum ≤ task.outputSize / unitSize := by
    rw [NpuTask.validatedFilterNum, hcast]
    split_ifs with hmore
    · exact Nat.mod_le _ _
    · exact not_lt.mp hmore
  calc (task.ppcpuOutputView slice unitSize ppuFilterNum).size
      ≤ unitSize * task.validatedFilterNum unitSize ppuFilterNum := Nat.mod_le _ _
    _ ≤ unitSize * (task.outputSize / unitSize) := Nat.mul_le_mul_left _ hboxes
    _ ≤ task.outputSize := Nat.mul_div_le _ _

/-! ### The ranges -/

/-- A view lies in the first `blockSize` bytes of a slice. -/
def Within (slice : NpuMemoryCacheSlice) (blockSize : ℤ) (view : NpuMemoryCacheSlice) : Prop :=
  slice.offset ≤ view.offset ∧ (view.offset + view.size : ℤ) ≤ slice.offset + blockSize

/-- What is written and read through a slice lies in what is reserved for it. -/
structure InsideBlock (task : NpuTask) (blockSize : ℤ) (slice : NpuMemoryCacheSlice) : Prop where
  input : Within slice blockSize (task.inputView slice)
  output : Within slice blockSize (task.outputView slice)
  filtered : task.npuModel.type = .ppcpu → Within slice blockSize (task.filteredView slice)

/-- The outputs lie in the output memory of the model. -/
def WithinOutput (info : RegisterInfoDatabase) : Prop :=
  ∀ t ∈ info.outputs, 0 ≤ t.memory.offset ∧ 0 ≤ t.memory.size ∧ t.memory.finish ≤ info.output.size

/-- The 32-bit sums do not wrap. -/
structure SumsFit (info : RegisterInfoDatabase) (task : NpuTask) : Prop where
  alignedInput : task.encodedInputSize + 64 ≤ 2 ^ 32
  outputMemory : info.output.size < 2 ^ 32
  ppuOutput : task.npuModel.type = .ppu → info.output.size + 128 * 1024 < 2 ^ 32
  ppcpuOutput : task.npuModel.type = .ppcpu → info.output.size + task.outputSize + 64 ≤ 2 ^ 32
  slice : alignUint32 task.encodedInputSize + task.outputMemSize < 2 ^ 32
  output : task.outputOffsetInSlice + task.npuModel.lastOutputSize < 2 ^ 32

/-- `output_all_offset`. -/
def allOffset (info : RegisterInfoDatabase) : ℕ := toUint32 info.output.offset

/-- The end of the output, counted from the start of the outputs in the slice. -/
def lastEnd (info : RegisterInfoDatabase) (hasPpuBinary : Bool) : ℤ :=
  if hasPpuBinary then info.output.offset + lastOutputUpperBound info.outputs
  else if ∀ t ∈ info.outputs, t.memory.type = .argmax then
    info.output.offset + lastOutputLowerBound info.outputs + 2
  else if ∃ t ∈ info.outputs.head?, t.memory.type = .ppu then info.output.size + 128 * 1024
  else info.output.offset + lastOutputUpperBound info.outputs

/-- The size of the filtered output of a model with a PPU binary. -/
def filteredSize (info : RegisterInfoDatabase) (data : List (List UInt8)) : ℕ :=
  (info.outputs.head?.map fun first =>
    ppuOutputSize (encodedSize info.outputs) data (ppuDataType info first)).getD 0

/-- The input fits an `int`, or lies before the end of the output; and a model with a PPU binary has
    no `output_all_offset`, or enough room before it. -/
structure Covered (info : RegisterInfoDatabase) (data : List (List UInt8)) (hasPpuBinary : Bool) :
    Prop where
  input : encodedSize info.inputs < 2 ^ 31 ∨
    allOffset info ≠ 0 ∧ (encodedSize info.inputs : ℤ) ≤ allOffset info + lastEnd info hasPpuBinary
  filtered : hasPpuBinary = true → allOffset info = 0 ∨ filteredSize info data = 0 ∨
    encodedSize info.inputs < 2 ^ 31 ∧
      allOffset info + lastEnd info hasPpuBinary + filteredSize info data ≤
        alignUint32 (encodedSize info.inputs) + info.output.size +
          alignUint32 (filteredSize info data)

theorem within_view_iff (slice : NpuMemoryCacheSlice) (blockSize : ℤ) (offset size : ℕ) :
    Within slice blockSize (slice.info.view (slice.offset + offset) size) ↔
      (offset + size : ℤ) ≤ blockSize := by
  rw [Within, SharedMemoryInfo.view]
  push_cast
  omega

theorem alignUint32_of_lt {x : ℕ} (h : x + 64 ≤ 2 ^ 32) :
    x ≤ alignUint32 x ∧ alignUint32 x < x + 64 := by
  rw [alignUint32]
  split_ifs <;> omega

/-- `data_align` on a size that fits an `int`. -/
theorem dataAlign_of_lt {x : ℕ} (h : x < 2 ^ 31) :
    dataAlign (MemFDService.toInt32 x) 64 = alignUint32 x := by
  have hnonneg : (0 : ℤ) ≤ x := by omega
  rw [MemFDService.toInt32_of_lt h, dataAlign, alignUint32, Int.tdiv_eq_ediv_of_nonneg hnonneg,
    Int.tmod_eq_emod_of_nonneg hnonneg]
  split_ifs <;> omega

/-- A size that does not fit is negative, and stays about as negative. -/
theorem dataAlign_of_le {x : ℕ} (h : 2 ^ 31 ≤ x) (hlt : x < 2 ^ 32) :
    dataAlign (MemFDService.toInt32 x) 64 < x - 2 ^ 32 + 64 := by
  have hneg : MemFDService.toInt32 x = x - 2 ^ 32 := by
    rw [OutputBuffer.toInt32_eq]
    split_ifs <;> omega
  have hdiv := Int.mul_tdiv_add_tmod (x - 2 ^ 32) 64
  have hmod := Int.lt_tmod_of_pos (x - 2 ^ 32) (show (0 : ℤ) < 64 by norm_num)
  rw [hneg, dataAlign]
  split_ifs <;> omega

/-! ### Where the task puts its output -/

variable {addr : List UInt8 → ℕ} {info : RegisterInfoDatabase} {data : List (List UInt8)}
  {hasPpuBinary : Bool} {task : NpuTask}

/-- The sizes of a task in terms of its `rmap_info`. -/
structure Placed (info : RegisterInfoDatabase) (data : List (List UInt8)) (hasPpuBinary : Bool)
    (task : NpuTask) : Prop where
  input : task.encodedInputSize = encodedSize info.inputs
  allOffset : task.npuModel.outputAllOffset = allOffset info
  lastEnd : (task.npuModel.lastOutputOffset + task.npuModel.lastOutputSize : ℤ) =
    lastEnd info hasPpuBinary
  binary : task.npuModel.type = .ppcpu ↔ hasPpuBinary = true
  filtered : hasPpuBinary = true → task.outputSize = filteredSize info data ∧
    (task.outputMemSize : ℤ) = info.output.size + alignUint32 (filteredSize info data)

theorem output_nonneg (hacc : Accepted info) (hin : WithinOutput info) : 0 ≤ info.output.size := by
  obtain ⟨t, ht⟩ := List.exists_mem_of_ne_nil _ hacc.outputs
  obtain ⟨hoffset, hsize, hfinish⟩ := hin t ht
  exact (add_nonneg hoffset hsize).trans hfinish

theorem upperBound_le (hacc : Accepted info) (hin : WithinOutput info) :
    lastOutputUpperBound info.outputs ≤ info.output.size :=
  List.foldl_max_le_iff.mpr ⟨output_nonneg hacc hin, fun t ht => (hin t ht).2.2⟩

/-- The span of the outputs, where the highest end fits. -/
theorem span_eq (hacc : Accepted info) (hin : WithinOutput info)
    (hlt : info.output.size < 2 ^ 32) :
    (toUint32 (lastOutputUpperBound info.outputs - lastOutputLowerBound info.outputs) : ℤ) =
      lastOutputUpperBound info.outputs - lastOutputLowerBound info.outputs := by
  have hupper := upperBound_le hacc hin
  have hlower := hacc.lower_nonneg
  have hle := hacc.lower_le
  exact OutputBuffer.toUint32_eq_iff.mpr ⟨by omega, by omega⟩

theorem not_all_argmax_of_ppu (h : ∃ t ∈ info.outputs.head?, t.memory.type = .ppu) :
    ¬ ∀ t ∈ info.outputs, t.memory.type = .argmax := by
  obtain ⟨t, ht, hppu⟩ := h
  intro hall
  exact absurd (hppu.symm.trans (hall t (List.mem_of_head? ht))) (by decide)

theorem placed_of_ok (h : setFromNpu addr info data hasPpuBinary = .ok task)
    (hin : WithinOutput info) (hsums : SumsFit info task) :
    Placed info data hasPpuBinary task := by
  obtain ⟨base, task', hacc, hc, hkind, rfl⟩ := setFromNpu_ok h
  have hS := OutputBuffer.toUint32_eq_iff.mpr ⟨output_nonneg hacc hin, hsums.outputMemory⟩
  have hspan := span_eq hacc hin hsums.outputMemory
  have hlast : ((info.output.offset + lastOutputLowerBound info.outputs).toNat : ℤ) =
      info.output.offset + lastOutputLowerBound info.outputs :=
    Int.toNat_of_nonneg hacc.last_nonneg
  cases hkind with
  | ppcpu first size hbinary hfirst hsize =>
    have hfiltered : filteredSize info data = size := by
      rw [filteredSize, hfirst, Option.map_some, Option.getD_some, hsize, hc.encodedOutputSize]
    have hroom := hsums.ppcpuOutput rfl
    have halign := alignUint32_of_lt (x := size) (by simp only at hroom; omega)
    refine ⟨hc.encodedInputSize, hc.outputAllOffset, ?_, by simp [hbinary], fun _ => ⟨?_, ?_⟩⟩
    · rw [lastEnd, if_pos hbinary]
      simp only [hc.lastOutputOffset, hc.lastOutputSize, hlast, hspan]
      ring
    · exact hfiltered.symm
    · simp only [hc.outputAllSize, hfiltered]
      simp only at hroom
      omega
  | argmax hbinary hall =>
    refine ⟨hc.encodedInputSize, hc.outputAllOffset, ?_, by simp [hbinary, setArgmax], ?_⟩
    · rw [lastEnd, if_neg (by simp [hbinary]), if_pos hall]
      simp only [setArgmax, hc.lastOutputOffset, hlast]
      norm_num
    · intro hppu
      exact absurd (hbinary.symm.trans hppu) (by decide)
  | ppu hbinary hfirst =>
    refine ⟨hc.encodedInputSize, hc.outputAllOffset, ?_, by simp [hbinary, setPpu], ?_⟩
    · have hsome := not_all_argmax_of_ppu hfirst
      rw [lastEnd, if_neg (by simp [hbinary]), if_neg hsome, if_pos hfirst]
      simp only [setPpu, hc.outputAllSize, hS]
      norm_num
    · intro hppu
      exact absurd (hbinary.symm.trans hppu) (by decide)
  | normal hbinary hsome hfirst =>
    refine ⟨hc.encodedInputSize, hc.outputAllOffset, ?_, by simp [hbinary, hc.type], ?_⟩
    · rw [lastEnd, if_neg (by simp [hbinary]), if_neg hsome, if_neg hfirst]
      simp only [hc.lastOutputOffset, hc.lastOutputSize, hlast, hspan]
      ring
    · intro hppu
      exact absurd (hbinary.symm.trans hppu) (by decide)

/-! ### The ranges are covered -/

theorem insideBlock_iff (hsize : task.encodedInputSize < 2 ^ 32) (blockSize : ℤ)
    (slice : NpuMemoryCacheSlice) :
    InsideBlock task blockSize slice ↔
      (task.encodedInputSize : ℤ) ≤ blockSize ∧
      (task.outputOffsetInSlice + task.npuModel.lastOutputSize : ℤ) ≤ blockSize ∧
      (task.npuModel.type = .ppcpu →
        (task.outputOffsetInSlice + task.npuModel.lastOutputSize + task.outputSize : ℤ) ≤
          blockSize) := by
  have hinput := within_view_iff slice blockSize 0 task.encodedInputSize
  have houtput := within_view_iff slice blockSize task.outputOffsetInSlice
    task.npuModel.lastOutputSize
  have hfiltered := within_view_iff slice blockSize
    (task.outputOffsetInSlice + task.npuModel.lastOutputSize) task.outputSize
  rw [add_zero, Nat.cast_zero, zero_add] at hinput
  rw [← add_assoc, Nat.cast_add] at hfiltered
  rw [← hinput, ← houtput, ← hfiltered]
  constructor
  · intro h
    refine ⟨?_, h.output, h.filtered⟩
    have hin := h.input
    rwa [NpuTask.inputView, toUint32_toInt32 hsize] at hin
  · rintro ⟨hin, hout, hfilt⟩
    refine ⟨?_, hout, hfilt⟩
    rwa [NpuTask.inputView, toUint32_toInt32 hsize]

/-- Without an `output_all_offset` the output ends inside the output memory. -/
theorem lastEnd_le (hacc : Accepted info) (hin : WithinOutput info)
    (hlt : info.output.size < 2 ^ 32) (hzero : allOffset info = 0) :
    lastEnd info true ≤ info.output.size := by
  have hupper := upperBound_le hacc hin
  have hlower := hacc.lower_nonneg
  have hle := hacc.lower_le
  have hlast0 := hacc.last_nonneg
  have hlast1 := hacc.last_lt
  rw [allOffset, toUint32] at hzero
  rw [lastEnd, if_pos rfl]
  omega

/-- The block of a slice, by the size of the input. -/
theorem blockSize_eq (id bufferCount : ℤ) (h : task.encodedInputSize < 2 ^ 31) :
    (task.toTaskData id bufferCount data).blockSize =
      max (alignUint32 task.encodedInputSize + task.outputMemSize : ℤ)
        (task.outputOffsetInSlice + task.npuModel.lastOutputSize) := by
  simp only [TaskData.blockSize, NpuTask.toTaskData, dataAlign_of_lt h, NpuTask.outputOffsetInSlice]
  push_cast
  split_ifs <;> rfl

variable (data) in
/-- An input that does not fit an `int` is not counted: what is left is the output of a model with
    an `output_all_offset`. -/
theorem blockSize_of_le (hsums : SumsFit info task) (id bufferCount : ℤ)
    (h : 2 ^ 31 ≤ task.encodedInputSize) :
    (task.npuModel.outputAllOffset = 0 →
      (task.toTaskData id bufferCount data).blockSize < 64) ∧
    (task.npuModel.outputAllOffset ≠ 0 → ∃ small < (64 : ℤ),
      (task.toTaskData id bufferCount data).blockSize =
        max small (task.outputOffsetInSlice + task.npuModel.lastOutputSize)) := by
  have halign := alignUint32_of_lt hsums.alignedInput
  have hneg := dataAlign_of_le h (by have hlt := hsums.alignedInput; omega)
  have hslice := hsums.slice
  have houtput := hsums.output
  rw [NpuTask.outputOffsetInSlice] at houtput
  constructor
  · intro hzero
    simp only [TaskData.blockSize, NpuTask.toTaskData, hzero, ne_eq, not_true_eq_false,
      if_false] at houtput ⊢
    omega
  · intro hoffset
    refine ⟨dataAlign (MemFDService.toInt32 task.encodedInputSize) 64 + task.outputMemSize,
      by omega, ?_⟩
    simp only [TaskData.blockSize, NpuTask.toTaskData, NpuTask.outputOffsetInSlice, ne_eq, hoffset,
      not_false_eq_true, if_true, Nat.cast_add]

/-- A model whose input fits an `int`: only the filtered output can reach out of the slice. -/
theorem insideBlock_iff_of_lt (hacc : Accepted info) (hin : WithinOutput info)
    (hsums : SumsFit info task) (hplaced : Placed info data hasPpuBinary task)
    (id bufferCount : ℤ) (slice : NpuMemoryCacheSlice) (h : task.encodedInputSize < 2 ^ 31) :
    InsideBlock task (task.toTaskData id bufferCount data).blockSize slice ↔
      Covered info data hasPpuBinary := by
  have halign := alignUint32_of_lt hsums.alignedInput
  rw [insideBlock_iff (by omega), blockSize_eq id bufferCount h]
  constructor
  · rintro ⟨_, _, hfiltered⟩
    refine ⟨Or.inl (hplaced.input ▸ h), fun hbinary => ?_⟩
    obtain ⟨hsize, hmem⟩ := hplaced.filtered hbinary
    have hle := hfiltered (hplaced.binary.mpr hbinary)
    rcases Nat.eq_zero_or_pos (allOffset info) with hzero | hpos
    · exact Or.inl hzero
    · have hend := hplaced.lastEnd
      rw [NpuTask.outputOffsetInSlice, hplaced.allOffset, if_pos hpos.ne', hsize, hmem] at hle
      rw [hplaced.input] at hle h halign
      push_cast at hle
      refine Or.inr ((Nat.eq_zero_or_pos _).imp_right fun hfull => ⟨h, ?_⟩)
      omega
  · intro hcov
    refine ⟨by omega, le_max_right _ _, fun htype => ?_⟩
    have hbinary := hplaced.binary.mp htype
    obtain ⟨hsize, hmem⟩ := hplaced.filtered hbinary
    have hend := hplaced.lastEnd
    have hroom := hsums.ppcpuOutput htype
    have hnonneg := output_nonneg hacc hin
    have hfull := alignUint32_of_lt (x := filteredSize info data) (by omega)
    rw [NpuTask.outputOffsetInSlice, hplaced.allOffset, hsize, hmem]
    push_cast
    rcases hcov.filtered hbinary with hzero | hzero | ⟨_, hle⟩
    · have hlast := lastEnd_le hacc hin hsums.outputMemory hzero
      rw [hbinary] at hend
      rw [if_neg (by omega)]
      omega
    · rw [hzero]
      omega
    · rcases Nat.eq_zero_or_pos (allOffset info) with hzero | hpos
      · have hlast := lastEnd_le hacc hin hsums.outputMemory hzero
        rw [hbinary] at hend
        rw [if_neg (by omega)]
        omega
      · rw [hplaced.input, if_pos hpos.ne']
        omega

/-- A model whose input does not fit: it lies in the slice only where the output leaves room. -/
theorem insideBlock_iff_of_le (hsums : SumsFit info task)
    (hplaced : Placed info data hasPpuBinary task) (id bufferCount : ℤ)
    (slice : NpuMemoryCacheSlice) (h : 2 ^ 31 ≤ task.encodedInputSize) :
    InsideBlock task (task.toTaskData id bufferCount data).blockSize slice ↔
      Covered info data hasPpuBinary := by
  have hlt := hsums.alignedInput
  obtain ⟨hnone, hsome⟩ := blockSize_of_le data hsums id bufferCount h
  have hbig : ¬ encodedSize info.inputs < 2 ^ 31 := by
    rw [← hplaced.input]
    omega
  have hoff := hplaced.allOffset
  have hend := hplaced.lastEnd
  rw [insideBlock_iff (by omega)]
  constructor
  · rintro ⟨hinput, _, hfiltered⟩
    have hoffset : task.npuModel.outputAllOffset ≠ 0 := fun hzero => by
      have hsmall := hnone hzero
      omega
    obtain ⟨small, hsmall, heq⟩ := hsome hoffset
    rw [heq] at hinput hfiltered
    rw [NpuTask.outputOffsetInSlice, if_pos hoffset] at hinput hfiltered
    push_cast at hinput hfiltered
    refine ⟨Or.inr ⟨hoff ▸ hoffset, ?_⟩, fun hbinary => Or.inr (Or.inl ?_)⟩
    · rw [← hplaced.input, ← hoff]
      omega
    · rw [← (hplaced.filtered hbinary).1]
      have hle := hfiltered (hplaced.binary.mpr hbinary)
      omega
  · intro hcov
    obtain ⟨hoffset, hle⟩ := hcov.input.resolve_left hbig
    rw [← hoff] at hoffset hle
    rw [← hplaced.input] at hle
    obtain ⟨small, _, heq⟩ := hsome hoffset
    rw [heq, NpuTask.outputOffsetInSlice, if_pos hoffset]
    push_cast
    refine ⟨by omega, by omega, fun htype => ?_⟩
    have hbinary := hplaced.binary.mp htype
    have hzero : task.outputSize = 0 := by
      rw [(hplaced.filtered hbinary).1]
      rcases hcov.filtered hbinary with hnone | hzero | ⟨hlt, _⟩
      · exact absurd hnone (hoff ▸ hoffset)
      · exact hzero
      · exact absurd hlt hbig
    rw [hzero]
    omega

/-- For every task whose outputs lie in the output memory and whose sums fit: all paths work with the
    same bytes of every slice, and these bytes lie in the slice exactly when they are covered. -/
theorem slice_layout (addr : List UInt8 → ℕ) (info : RegisterInfoDatabase)
    (data : List (List UInt8)) (hasPpuBinary : Bool) (task : NpuTask) (id bufferCount : ℤ)
    (h : setFromNpu addr info data hasPpuBinary = .ok task) (hin : WithinOutput info)
    (hsums : SumsFit info task) :
    (∀ slice, SameByte task slice ∧
        InsideBlock task (task.toTaskData id bufferCount data).blockSize slice) ↔
      Covered info data hasPpuBinary := by
  obtain ⟨_, _, hacc, _⟩ := setFromNpu_ok h
  have hplaced := placed_of_ok h hin hsums
  have hiff : ∀ slice, InsideBlock task (task.toTaskData id bufferCount data).blockSize slice ↔
      Covered info data hasPpuBinary := fun slice =>
    (lt_or_ge task.encodedInputSize (2 ^ 31)).elim
      (insideBlock_iff_of_lt hacc hin hsums hplaced id bufferCount slice)
      (insideBlock_iff_of_le hsums hplaced id bufferCount slice)
  have hsize : task.encodedInputSize < 2 ^ 32 := by
    have halign := hsums.alignedInput
    omega
  constructor
  · intro hall
    exact (hiff ⟨.zero, 0, 0⟩).mp (hall _).2
  · intro hcov slice
    exact ⟨sameByte hsize slice, (hiff slice).mpr hcov⟩

/-- A model with an input and an output of 64 bytes, the outputs at `offset`. -/
def boxModel (offset : ℤ) : RegisterInfoDatabase where
  inputs := [⟨[64], .uint8, ⟨0, 64, .dram⟩⟩]
  outputs := [⟨[64], .uint8, ⟨0, 64, .dram⟩⟩]
  output := ⟨offset, 64, .dram⟩
  ppuType := 0

/-- A PPU binary of one tensor, with a grid of two by two boxes. -/
def boxBinary : List UInt8 := [1, 1, 16, 0] ++ List.replicate 13 0 ++ [2, 2, 0]

/-- The task of such a model with that binary. -/
def boxTask (offset : ℤ) : Except RmapFault NpuTask :=
  setFromNpu (fun _ => 0) (boxModel offset) [[1], [2], boxBinary] true

theorem boxModel_withinOutput (offset : ℤ) : WithinOutput (boxModel offset) := by
  intro t ht
  obtain rfl := List.mem_singleton.mp ht
  simp [boxModel, Memory.finish]

theorem slice_layout_boxes : ∃ task, boxTask 0 = .ok task ∧
    ((∀ slice, SameByte task slice ∧ InsideBlock task
        (task.toTaskData 1 4 [[1], [2], boxBinary]).blockSize slice) ↔
      Covered (boxModel 0) [[1], [2], boxBinary] true) :=
  ⟨_, rfl, slice_layout (fun _ => 0) (boxModel 0) [[1], [2], boxBinary] true _ 1 4 rfl
    (boxModel_withinOutput 0)
    ⟨by decide, by decide, by decide, by decide, by decide, by decide⟩⟩

/-- With the outputs at 64, four boxes of 32 bytes are read from byte 192 on, from a slice of 256. -/
theorem boxes_beyond_slice : ∃ task, boxTask 64 = .ok task ∧
    WithinOutput (boxModel 64) ∧ SumsFit (boxModel 64) task ∧
    task.npuModel.type = .ppcpu ∧ task.outputSize = 128 ∧
    (task.toTaskData 1 4 [[1], [2], boxBinary]).blockSize = 256 ∧
    ∀ slice, (task.ppcpuOutputView slice 32 4).offset = slice.offset + 192 ∧
      (task.ppcpuOutputView slice 32 4).size = 128 ∧ ¬ InsideBlock task 256 slice := by
  refine ⟨_, rfl, boxModel_withinOutput 64,
    ⟨by decide, by decide, by decide, by decide, by decide, by decide⟩, rfl, by decide, by decide,
    fun slice => ⟨rfl, rfl, fun h => ?_⟩⟩
  have hread := h.filtered rfl
  exact absurd ((within_view_iff slice 256 192 128).mp hread) (by decide)

end SliceLayout
end DxRt
