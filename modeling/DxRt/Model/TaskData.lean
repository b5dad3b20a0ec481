import DxRt.Device.Registration

/-! lib/task_data.cpp, lib/ppu_binary_parser.cpp: the sizes and offsets of an NPU task.

    `set_from_npu` works from the `rmap_info` of the model. The outputs are a span of the output
    memory, from the lowest offset to the highest end, and the encoded output is as large as all
    outputs together; both are kept in 32-bit fields. Which of the two counts depends on the kind of
    the model: an argmax and the output of the PPU have sizes of their own. -/

namespace DxRt

/-- `DataType`; the numbers of `deepx_rmapinfo::DataType` are the same. -/
inductive DataType where
  | none | float | uint8 | int8 | uint16 | int16 | int32 | int64 | uint32 | uint64
  | bbox | face | pose
  deriving DecidableEq

inductive ModelType where
  | normal | argmax | ppu | ppcpu
  deriving DecidableEq

namespace DeepxRmapinfo

/-- The parser makes no other value. -/
inductive MemoryType where
  | none | dram | argmax | ppu
  deriving DecidableEq

structure Memory where
  offset : ℤ
  size : ℤ
  type : MemoryType

/-- The end of a range of the memory. -/
def Memory.finish (m : Memory) : ℤ := m.offset + m.size

structure TensorInfo where
  shape : List ℤ
  dtype : DataType
  memory : Memory

/-- `output` is the output memory of the model. -/
structure RegisterInfoDatabase where
  inputs : List TensorInfo
  outputs : List TensorInfo
  output : Memory
  ppuType : ℤ

end DeepxRmapinfo

open DeepxRmapinfo

/-- `dxrt_model_t` with its kind and the size of its outputs. -/
structure NpuModel extends Model where
  type : ModelType
  outputAllSize : ℕ

/-- What `set_from_npu` fills in. -/
structure NpuTask where
  inputSize : ℕ
  outputSize : ℕ
  encodedInputSize : ℕ
  encodedOutputSize : ℕ
  encodedOutputSizes : List ℕ
  encodedOutputOffsets : List ℕ
  outputMemSize : ℕ
  npuModel : NpuModel

/-- Why there is no task: an exception with its text, the end of the process, or data without an
    rmap and a weight, which the code does not look for. -/
inductive RmapFault where
  | invalidArgument (what : String)
  | runtimeError (what : String)
  | exit
  | undefined
  deriving DecidableEq

/-- `static_cast<uint32_t>`. -/
def toUint32 (x : ℤ) : ℕ := (x % 2 ^ 32).toNat

/-! ### The PPU binary -/

/-- `GetDataSize_Datatype`; a type without a size ends the process. -/
def DataType.dataSize : DataType → Except RmapFault ℕ
  | .uint8 | .int8 => .ok 1
  | .uint16 | .int16 => .ok 2
  | .uint32 | .int32 | .float => .ok 4
  | .uint64 | .int64 => .ok 8
  | .bbox => .ok 32
  | .face => .ok 64
  | .pose => .ok 256
  | .none => .error .exit

/-- `GetPpuBoxDataSize`; 0 for a type that is not a PPU type. -/
def DataType.ppuBoxDataSize : DataType → ℕ
  | .bbox => 32
  | .face => 64
  | .pose => 256
  | _ => 0

/-- The boxes of the first tensors; each tensor has 16 bytes, the grid at 13 and 14. -/
def ppuBoxCount (tensors : List UInt8) : ℕ → ℕ
  | 0 => 0
  | n + 1 =>
    let width := (tensors.getD (16 * n + 13) 0).toNat
    let height := (tensors.getD (16 * n + 14) 0).toNat
    (ppuBoxCount tensors n + width * height) % 2 ^ 32

/-- The total size of `CalculatePpuOutputSize`, 0 when the binary is not valid; its header has four
    bytes. -/
def calculatePpuOutputSize : List UInt8 → DataType → ℕ
  | _ :: tensorNum :: _ :: _ :: tensors, dataType =>
    if tensorNum = 0 ∨ tensors.length < tensorNum.toNat * 16 then 0
    else ppuBoxCount tensors tensorNum.toNat * dataType.ppuBoxDataSize % 2 ^ 32
  | _, _ => 0

/-! ### Sizes and offsets -/

namespace TaskData

/-- A sum of sizes in a 32-bit field. -/
def encodedSize (tensors : List TensorInfo) : ℕ :=
  tensors.foldl (fun sum t => toUint32 (sum + t.memory.size)) 0

/-- The lowest offset of an output; the largest number, or no output, counts as 0. -/
def lastOutputLowerBound (outputs : List TensorInfo) : ℤ :=
  let lower := outputs.foldl (fun lower t => min lower t.memory.offset) (2 ^ 63 - 1)
  if lower = 2 ^ 63 - 1 then 0 else lower

/-- The highest end of an output, at least 0. -/
def lastOutputUpperBound (outputs : List TensorInfo) : ℤ :=
  outputs.foldl (fun upper t => max upper t.memory.finish) 0

/-- Both bounds, when they are valid. -/
def outputBounds (outputs : List TensorInfo) : Except RmapFault (ℤ × ℤ) :=
  let lower := lastOutputLowerBound outputs
  let upper := lastOutputUpperBound outputs
  if lower < 0 ∨ upper < lower then .error (.invalidArgument "Invalid output memory bounds")
  else .ok (lower, upper)

/-- The offset of an output before the lowest one is subtracted: an argmax comes after the output
    memory, the output of the PPU is kept elsewhere. -/
def rawOffset (info : RegisterInfoDatabase) (t : TensorInfo) : ℕ :=
  match t.memory.type with
  | .argmax => HandleTable.toUint64 info.output.size
  | .ppu => 0
  | _ => HandleTable.toUint64 t.memory.offset

/-- The offset of an output in the encoded output. -/
def normalizedOffset (info : RegisterInfoDatabase) (lower : ℤ) (t : TensorInfo) :
    Except RmapFault ℕ :=
  if rawOffset info t < lower.toNat then .error (.invalidArgument "Invalid offset normalization")
  else .ok (rawOffset info t - lower.toNat)

/-- An output of the PPU has no size of its own. -/
def checkEncodedSize (outputs : List TensorInfo) : Except RmapFault Unit :=
  if outputs ≠ [] ∧ (∀ t ∈ outputs, t.memory.type ≠ .ppu) ∧ encodedSize outputs = 0 then
    .error (.invalidArgument "Invalid encoded output size")
  else .ok ()

/-- The data types; no tensor is one tensor of no type. -/
def dataTypes (tensors : List TensorInfo) : List DataType :=
  if tensors = [] then [.none] else tensors.map TensorInfo.dtype

/-- The sizes of the tensors in `uint32_t`. -/
def sumSizes : List (DataType × List ℤ) → ℕ → Except RmapFault ℕ
  | [], total => .ok total
  | (dtype, shape) :: rest, total => do
    let elemSize ← dtype.dataSize
    sumSizes rest (toUint32 (total + toUint32 shape.prod * elemSize))

def calculateTotalSize (dataTypes : List DataType) (shapes : List (List ℤ)) :
    Except RmapFault ℕ :=
  if dataTypes.length ≠ shapes.length then
    .error (.runtimeError "DataTypes and Shapes vectors must have the same size.")
  else sumSizes (dataTypes.zip shapes) 0

/-- `last_output_offset`: the place of the outputs in the memory of the model. -/
def lastOutputOffset (info : RegisterInfoDatabase) (lower : ℤ) : Except RmapFault ℕ :=
  let lastOffsetCalc := info.output.offset + lower
  if lastOffsetCalc < 0 ∨ 2 ^ 32 ≤ lastOffsetCalc then
    .error (.invalidArgument "Invalid last_output_offset - possible overflow")
  else .ok lastOffsetCalc.toNat

/-! ### The task of a model -/

/-- The task before its kind is known; a buffer lies at `addr`. -/
def common (addr : List UInt8 → ℕ) (info : RegisterInfoDatabase) (data : List (List UInt8)) :
    Except RmapFault NpuTask := do
  let (lower, upper) ← outputBounds info.outputs
  let offsets ← info.outputs.mapM (normalizedOffset info lower)
  checkEncodedSize info.outputs
  let inputSize ← calculateTotalSize (dataTypes info.inputs) (info.inputs.map TensorInfo.shape)
  let outputSize ← calculateTotalSize (dataTypes info.outputs) (info.outputs.map TensorInfo.shape)
  let lastOffset ← lastOutputOffset info lower
  match data with
  | rmap :: weight :: _ =>
    .ok {
      inputSize := inputSize
      outputSize := outputSize
      encodedInputSize := encodedSize info.inputs
      encodedOutputSize := encodedSize info.outputs
      encodedOutputSizes := info.outputs.map fun t => toUint32 t.memory.size
      encodedOutputOffsets := offsets
      outputMemSize := 0
      npuModel := {
        rmap := ⟨addr rmap, 0, 0, rmap.length % 2 ^ 32⟩
        weight := ⟨addr weight, 0, 0, weight.length % 2 ^ 32⟩
        outputAllOffset := toUint32 info.output.offset
        lastOutputOffset := lastOffset
        lastOutputSize := toUint32 (upper - lower)
        type := .normal
        outputAllSize := toUint32 info.output.size } }
  | _ => .error .undefined

/-- The type of the filtered output: the one of the PPU type, else the one of the first output. -/
def ppuDataType (info : RegisterInfoDatabase) (first : TensorInfo) : DataType :=
  if info.ppuType = 0 ∨ info.ppuType = 1 then .bbox
  else if info.ppuType = 3 then .face
  else if info.ppuType = 2 then .pose
  else first.dtype

/-- The size of the filtered output: what the PPU binary says, else the encoded size. -/
def ppuOutputSize (encodedOutputSize : ℕ) (data : List (List UInt8)) (dataType : DataType) : ℕ :=
  match data[2]? with
  | some ppu =>
    let total := calculatePpuOutputSize ppu dataType
    if ppu ≠ [] ∧ 0 < total then total else encodedOutputSize
  | none => encodedOutputSize

/-- `data_align` on `uint32_t`. -/
def alignUint32 (x : ℕ) : ℕ := (64 * (x / 64) + if 0 < x % 64 then 64 else 0) % 2 ^ 32

/-- A model with a PPU binary: the filtered output comes after the output memory. -/
def setPpcpu (info : RegisterInfoDatabase) (data : List (List UInt8)) (task : NpuTask) :
    Except RmapFault NpuTask :=
  match info.outputs with
  | [] => .error .undefined
  | first :: _ => do
    let size := ppuOutputSize task.encodedOutputSize data (ppuDataType info first)
    let _ ← (ppuDataType info first).dataSize
    .ok { task with
      outputSize := size
      encodedOutputSize := size
      npuModel := { task.npuModel with
        type := .ppcpu
        outputAllSize := (task.npuModel.outputAllSize + alignUint32 size) % 2 ^ 32 } }

/-- All outputs are an argmax: two bytes. -/
def setArgmax (task : NpuTask) : NpuTask :=
  { task with
    outputSize := 2
    encodedOutputSize := 2
    npuModel := { task.npuModel with type := .argmax, lastOutputSize := 2 } }

/-- The first output is one of the PPU: it comes after the output memory. -/
def setPpu (task : NpuTask) : NpuTask :=
  { task with
    outputSize := 128 * 1024
    encodedOutputSize := 128 * 1024
    npuModel := { task.npuModel with
      type := .ppu
      lastOutputOffset := task.npuModel.outputAllSize
      lastOutputSize := 128 * 1024
      outputAllSize := (task.npuModel.outputAllSize + 128 * 1024) % 2 ^ 32 } }

/-- The kind of the model, and what it changes. -/
def setType (info : RegisterInfoDatabase) (data : List (List UInt8)) (hasPpuBinary : Bool)
    (task : NpuTask) : Except RmapFault NpuTask :=
  if hasPpuBinary then setPpcpu info data task
  else if ∀ t ∈ info.outputs, t.memory.type = .argmax then .ok (setArgmax task)
  else if ∃ t ∈ info.outputs.head?, t.memory.type = .ppu then .ok (setPpu task)
  else .ok task

def setFromNpu (addr : List UInt8 → ℕ) (info : RegisterInfoDatabase) (data : List (List UInt8))
    (hasPpuBinary : Bool) : Except RmapFault NpuTask := do
  let task ← common addr info data
  let task ← setType info data hasPpuBinary task
  .ok { task with outputMemSize := task.npuModel.outputAllSize }

/-! ### What a task has when there is one -/

/-- A computation that returns has returned at every step. -/
theorem bind_ok {ε α β : Type} {x : Except ε α} {f : α → Except ε β} {b : β}
    (h : (x >>= f) = .ok b) : ∃ a, x = .ok a ∧ f a = .ok b := by
  cases x with
  | error e => cases h
  | ok a => exact ⟨a, rfl, h⟩

/-- What an `rmap_info` has when its sizes and offsets are accepted. -/
structure Accepted (info : RegisterInfoDatabase) : Prop where
  outputs : info.outputs ≠ []
  lower_nonneg : 0 ≤ lastOutputLowerBound info.outputs
  lower_le : lastOutputLowerBound info.outputs ≤ lastOutputUpperBound info.outputs
  raw : ∀ t ∈ info.outputs, (lastOutputLowerBound info.outputs).toNat ≤ rawOffset info t
  last_nonneg : 0 ≤ info.output.offset + lastOutputLowerBound info.outputs
  last_lt : info.output.offset + lastOutputLowerBound info.outputs < 2 ^ 32

/-- What is in a task before its kind is known. -/
structure Common (info : RegisterInfoDatabase) (task : NpuTask) : Prop where
  encodedInputSize : task.encodedInputSize = encodedSize info.inputs
  encodedOutputSize : task.encodedOutputSize = encodedSize info.outputs
  encodedOutputSizes :
    task.encodedOutputSizes = info.outputs.map fun t => toUint32 t.memory.size
  encodedOutputOffsets : task.encodedOutputOffsets =
    info.outputs.map fun t => rawOffset info t - (lastOutputLowerBound info.outputs).toNat
  outputAllOffset : task.npuModel.outputAllOffset = toUint32 info.output.offset
  lastOutputOffset : task.npuModel.lastOutputOffset =
    (info.output.offset + lastOutputLowerBound info.outputs).toNat
  lastOutputSize : task.npuModel.lastOutputSize =
    toUint32 (lastOutputUpperBound info.outputs - lastOutputLowerBound info.outputs)
  type : task.npuModel.type = .normal
  outputAllSize : task.npuModel.outputAllSize = toUint32 info.output.size

theorem outputBounds_ok {outputs : List TensorInfo} {lower upper : ℤ}
    (h : outputBounds outputs = .ok (lower, upper)) :
    lower = lastOutputLowerBound outputs ∧ upper = lastOutputUpperBound outputs ∧
      0 ≤ lower ∧ lower ≤ upper := by
  simp only [outputBounds] at h
  split at h
  · cases h
  · next hbad =>
    rw [not_or, not_lt, not_lt] at hbad
    cases h
    exact ⟨rfl, rfl, hbad⟩

theorem normalizedOffset_ok {info : RegisterInfoDatabase} {lower : ℤ} {t : TensorInfo} {offset : ℕ}
    (h : normalizedOffset info lower t = .ok offset) :
    lower.toNat ≤ rawOffset info t ∧ offset = rawOffset info t - lower.toNat := by
  rw [normalizedOffset] at h
  split at h
  · cases h
  · next hbad =>
    cases h
    exact ⟨not_lt.mp hbad, rfl⟩

theorem normalizedOffsets_ok {info : RegisterInfoDatabase} {lower : ℤ} {outputs : List TensorInfo}
    {offsets : List ℕ} (h : outputs.mapM (normalizedOffset info lower) = .ok offsets) :
    (∀ t ∈ outputs, lower.toNat ≤ rawOffset info t) ∧
      offsets = outputs.map fun t => rawOffset info t - lower.toNat := by
  induction outputs generalizing offsets with
  | nil =>
    cases h
    exact ⟨fun _ ht => absurd ht List.not_mem_nil, rfl⟩
  | cons t rest ih =>
    rw [List.mapM_cons] at h
    obtain ⟨offset, hoffset, h⟩ := bind_ok h
    obtain ⟨tail, htail, h⟩ := bind_ok h
    obtain ⟨hle, rfl⟩ := normalizedOffset_ok hoffset
    obtain ⟨hall, rfl⟩ := ih htail
    cases h
    exact ⟨List.forall_mem_cons.mpr ⟨hle, hall⟩, rfl⟩

/-- Without a tensor the numbers of types and shapes differ. -/
theorem calculateTotalSize_ok {tensors : List TensorInfo} {size : ℕ}
    (h : calculateTotalSize (dataTypes tensors) (tensors.map TensorInfo.shape) = .ok size) :
    tensors ≠ [] := by
  rintro rfl
  cases h

theorem lastOutputOffset_ok {info : RegisterInfoDatabase} {lower : ℤ} {offset : ℕ}
    (h : lastOutputOffset info lower = .ok offset) :
    0 ≤ info.output.offset + lower ∧ info.output.offset + lower < 2 ^ 32 ∧
      offset = (info.output.offset + lower).toNat := by
  simp only [lastOutputOffset] at h
  split at h
  · cases h
  · next hbad =>
    rw [not_or, not_lt, not_le] at hbad
    cases h
    exact ⟨hbad.1, hbad.2, rfl⟩

variable {addr : List UInt8 → ℕ} {info : RegisterInfoDatabase} {data : List (List UInt8)}
  {hasPpuBinary : Bool} {task : NpuTask}

theorem common_ok (h : common addr info data = .ok task) : Accepted info ∧ Common info task := by
  rw [common] at h
  obtain ⟨⟨lower, upper⟩, hbounds, h⟩ := bind_ok h
  obtain ⟨offsets, hoffsets, h⟩ := bind_ok h
  obtain ⟨_, _, h⟩ := bind_ok h
  obtain ⟨_, _, h⟩ := bind_ok h
  obtain ⟨_, hsize, h⟩ := bind_ok h
  obtain ⟨last, hlast, h⟩ := bind_ok h
  obtain ⟨rfl, rfl, hnonneg, hle⟩ := outputBounds_ok hbounds
  obtain ⟨hraw, rfl⟩ := normalizedOffsets_ok hoffsets
  obtain ⟨hlast0, hlast1, rfl⟩ := lastOutputOffset_ok hlast
  refine ⟨⟨calculateTotalSize_ok hsize, hnonneg, hle, hraw, hlast0, hlast1⟩, ?_⟩
  match data, h with
  | _ :: _ :: _, rfl => exact ⟨rfl, rfl, rfl, rfl, rfl, rfl, rfl, rfl, rfl⟩

/-- The four kinds of models. -/
inductive Kind (info : RegisterInfoDatabase) (data : List (List UInt8)) (hasPpuBinary : Bool)
    (task : NpuTask) : NpuTask → Prop where
  | ppcpu (first : TensorInfo) (size : ℕ) (hbinary : hasPpuBinary = true)
      (hfirst : info.outputs.head? = some first)
      (hsize : size = ppuOutputSize task.encodedOutputSize data (ppuDataType info first)) :
      Kind info data hasPpuBinary task { task with
        outputSize := size
        encodedOutputSize := size
        npuModel := { task.npuModel with
          type := .ppcpu
          outputAllSize := (task.npuModel.outputAllSize + alignUint32 size) % 2 ^ 32 } }
  | argmax (hbinary : hasPpuBinary = false)
      (hall : ∀ t ∈ info.outputs, t.memory.type = .argmax) :
      Kind info data hasPpuBinary task (setArgmax task)
  | ppu (hbinary : hasPpuBinary = false)
      (hfirst : ∃ t ∈ info.outputs.head?, t.memory.type = .ppu) :
      Kind info data hasPpuBinary task (setPpu task)
  | normal (hbinary : hasPpuBinary = false)
      (hsome : ¬ ∀ t ∈ info.outputs, t.memory.type = .argmax)
      (hfirst : ¬ ∃ t ∈ info.outputs.head?, t.memory.type = .ppu) :
      Kind info data hasPpuBinary task task

theorem setType_ok {task' : NpuTask} (h : setType info data hasPpuBinary task = .ok task') :
    Kind info data hasPpuBinary task task' := by
  rw [setType] at h
  split_ifs at h with hbinary hall hfirst
  · rw [setPpcpu] at h
    split at h
    · cases h
    · next first rest houtputs =>
      obtain ⟨_, _, h⟩ := bind_ok h
      cases h
      exact .ppcpu first _ hbinary (by rw [houtputs, List.head?_cons]) rfl
  · cases h
    exact .argmax (Bool.not_eq_true _ |>.mp hbinary) hall
  · cases h
    exact .ppu (Bool.not_eq_true _ |>.mp hbinary) hfirst
  · cases h
    exact .normal (Bool.not_eq_true _ |>.mp hbinary) hall hfirst

/-- A task comes from the common part by its kind. -/
theorem setFromNpu_ok (h : setFromNpu addr info data hasPpuBinary = .ok task) :
    ∃ base task', Accepted info ∧ Common info base ∧ Kind info data hasPpuBinary base task' ∧
      task = { task' with outputMemSize := task'.npuModel.outputAllSize } := by
  rw [setFromNpu] at h
  obtain ⟨base, hbase, h⟩ := bind_ok h
  obtain ⟨task', htype, h⟩ := bind_ok h
  cases h
  exact ⟨base, task', (common_ok hbase).1, (common_ok hbase).2, setType_ok htype, rfl⟩

end TaskData
end DxRt
