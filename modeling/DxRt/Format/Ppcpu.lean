import DxRt.Model.TaskData
import DxRt.Service.Aliases

/-! lib/device_pool/acc_device_task_layer.cpp, lib/npu_format_handler.cpp,
    lib/device_pool/request_response_class.cpp: the filtered output of a PPCPU task.

    The response says how many boxes the device found. `OutputHandler` bounds the number by the
    output size before it reads the boxes; `DecodeOutputs`, or `ProcessByDataPPCPU` without a format
    handler layer, gives the user a shape and takes the number from the response again. A number is
    a `uint32_t`, the output size an `int` that is converted to `size_t`. -/

namespace DxRt.Ppcpu

/-- A tensor of the request: its type and its shape. -/
structure Tensor where
  type : DataType
  shape : List ℤ
  deriving DecidableEq

/-- What moves bytes: a read from the device, and a copy in the host. -/
inductive Transfer where
  | dmaRead (size : ℕ)
  | memcpy (size : ℕ)
  deriving DecidableEq

def Transfer.bytes : Transfer → ℕ
  | .dmaRead size | .memcpy size => size

/-- What the service layer says: whether the service has the device, what the read returns, and
    whether the slice is mapped in the host. -/
structure Service where
  isRunOnService : Bool
  dmaRead : ℤ
  hostPtr : Bool

/-- `output_size`; the field is a `uint32_t`. -/
def outputSize (task : NpuTask) : ℤ := MemFDService.toInt32 task.outputSize

/-- An `int` as a `size_t`. -/
def toSizeT (x : ℤ) : ℕ := (x % 2 ^ 64).toNat

/-- `SetMemInfo_PPCPU`: the filtered output comes after the output of the model. -/
def setMemInfo (rmapOutput : MemInfo) (ppuFilterNum unitSize outputPtr : ℕ) : MemInfo where
  base := rmapOutput.base
  offset := (rmapOutput.offset + rmapOutput.size) % 2 ^ 32
  size := unitSize * ppuFilterNum % 2 ^ 64 % 2 ^ 32
  data := outputPtr

/-- The number of boxes that are read. -/
def validatedFilterNum (task : NpuTask) (unitSize ppuFilterNum : ℕ) : ℕ :=
  let expectedMaxBoxes := toSizeT (outputSize task) / unitSize
  if expectedMaxBoxes < ppuFilterNum then expectedMaxBoxes % 2 ^ 32 else ppuFilterNum

/-- `OutputHandler` of a PPCPU task; `rmapOutput` is the output of the request and `outputPtr` the
    first encoded output. -/
def outputHandler (task : NpuTask) (outputs : List Tensor) (ppuFilterNum : UInt32)
    (rmapOutput : MemInfo) (outputPtr : ℕ) (service : Service) :
    Except RmapFault (List Transfer) :=
  match outputs with
  | [] => .ok []
  | first :: _ =>
    if ppuFilterNum = 0 then .ok []
    else do
      let unitSize ← first.type.dataSize
      let ppcpuOutput := setMemInfo rmapOutput
        (validatedFilterNum task unitSize ppuFilterNum.toNat) unitSize outputPtr
      .ok (.dmaRead ppcpuOutput.size ::
        if service.isRunOnService ∧ service.dmaRead = 0 ∧ service.hostPtr then
          [.memcpy ppcpuOutput.size] else [])

/-- `DecodeOutputs` of a PPCPU task: the outputs with the shape for the user. -/
def decodeOutputs (outputs : List Tensor) (ppuFilterNum : UInt32) : Except RmapFault (List Tensor) :=
  match outputs with
  | [] => .ok []
  | first :: rest =>
    if ppuFilterNum = 0 then .ok ({ first with shape := [0, 0] } :: rest)
    else do
      let unitSize ← first.type.dataSize
      .ok ({ first with shape := [ppuFilterNum.toNat, unitSize] } :: rest)

/-- `ProcessByDataPPCPU`: the same with another shape, and the copy to the output of the user. -/
def processByData (outputs : List Tensor) (ppuFilterNum : UInt32) :
    Except RmapFault (List Tensor × List Transfer) :=
  match outputs with
  | [] => .ok ([], [])
  | first :: rest =>
    if ppuFilterNum = 0 then .ok ({ first with shape := [0, 0] } :: rest, [])
    else do
      let unitSize ← first.type.dataSize
      .ok ({ first with shape := [1, ppuFilterNum.toNat] } :: rest,
        [.memcpy (ppuFilterNum.toNat * unitSize % 2 ^ 64)])

/-- The boxes in a shape: `DecodeOutputs` has their number first, `ProcessByDataPPCPU` second. -/
def boxes (dimension : ℕ) (outputs : List Tensor) : ℤ :=
  match outputs with
  | [] => 0
  | first :: _ => first.shape.getD dimension 0

/-- The bytes that the handler read from the device. -/
def bytesRead (transfers : List Transfer) : ℕ :=
  (transfers.map fun
    | .dmaRead size => size
    | .memcpy _ => 0).sum

/-- What the handlers made of a response agrees with the output size. -/
structure Bounded (task : NpuTask) (unitSize : ℕ) (transfers : List Transfer)
    (decoded processed : List Tensor) (copies : List Transfer) : Prop where
  decoded : boxes 0 decoded * unitSize ≤ outputSize task ∧
    boxes 0 decoded * unitSize = bytesRead transfers
  processed : boxes 1 processed * unitSize ≤ outputSize task ∧
    boxes 1 processed * unitSize = bytesRead transfers
  copies : ∀ t ∈ transfers ++ copies, (t.bytes : ℤ) ≤ outputSize task

/-! ### What the handlers return -/

section
variable {task : NpuTask} {outputs : List Tensor} {n : UInt32} {rmapOutput : MemInfo} {outputPtr : ℕ}
variable {service : Service} {unitSize : ℕ}

/-- The boxes that the response has for a request: none if it has no output. -/
def reported (outputs : List Tensor) (n : UInt32) : ℕ := if outputs = [] then 0 else n.toNat

theorem dataSize_bounds {type : DataType} (h : type.dataSize = .ok unitSize) :
    0 < unitSize ∧ unitSize ≤ 256 := by
  cases type with
  | none => cases h
  | _ =>
    obtain rfl := Except.ok.inj h
    decide

theorem outputSize_lt (task : NpuTask) : outputSize task < 2 ^ 31 := by
  unfold outputSize MemFDService.toInt32
  rw [Int.bmod_def]
  push_cast
  split_ifs <;> omega

theorem toSizeT_of_nonneg {x : ℤ} (hnonneg : 0 ≤ x) (hlt : x < 2 ^ 31) : (toSizeT x : ℤ) = x := by
  unfold toSizeT
  omega

/-- A number that fits is taken as it is. -/
theorem validatedFilterNum_of_le {k : ℕ} (hpos : 0 < unitSize)
    (hfits : (k * unitSize : ℤ) ≤ outputSize task) : validatedFilterNum task unitSize k = k := by
  have hlt := outputSize_lt task
  unfold validatedFilterNum
  generalize outputSize task = size at hfits hlt ⊢
  have hsize : (toSizeT size : ℤ) = size :=
    toSizeT_of_nonneg ((by positivity : (0 : ℤ) ≤ k * unitSize).trans hfits) hlt
  have hle : k ≤ toSizeT size / unitSize := by
    rw [Nat.le_div_iff_mul_le hpos]
    rw [← hsize] at hfits
    exact_mod_cast hfits
  exact if_neg hle.not_gt

/-- Boxes that fit are all read. -/
theorem outputHandler_read (hunit : ∀ t ∈ outputs.head?, t.type.dataSize = .ok unitSize)
    (hfits : (reported outputs n * unitSize : ℤ) ≤ outputSize task) : ∃ transfers,
    outputHandler task outputs n rmapOutput outputPtr service = .ok transfers ∧
      bytesRead transfers = reported outputs n * unitSize ∧
      ∀ t ∈ transfers, t.bytes = reported outputs n * unitSize := by
  cases outputs with
  | nil => exact ⟨[], rfl, (Nat.zero_mul _).symm, nofun⟩
  | cons first rest =>
    have hreported : reported (first :: rest) n = n.toNat := if_neg (List.cons_ne_nil _ _)
    rw [hreported] at hfits ⊢
    by_cases hzero : n = 0
    · subst hzero
      exact ⟨[], rfl, (Nat.zero_mul _).symm, nofun⟩
    · have hsize := hunit first rfl
      have hvalid := validatedFilterNum_of_le (dataSize_bounds hsize).1 hfits
      have hmem : (setMemInfo rmapOutput n.toNat unitSize outputPtr).size = n.toNat * unitSize := by
        have hlt : n.toNat * unitSize < 2 ^ 31 := by exact_mod_cast hfits.trans_lt (outputSize_lt task)
        change unitSize * n.toNat % 2 ^ 64 % 2 ^ 32 = _
        rw [Nat.mul_comm]
        omega
      simp only [outputHandler, if_neg hzero, hsize]
      refine ⟨_, rfl, ?_, ?_⟩
      · rw [hvalid, bytesRead]
        split <;> simp [hmem]
      · rw [hvalid]
        split <;> simp [Transfer.bytes, hmem]

/-- The user is shown the boxes of the response. -/
theorem decodeOutputs_boxes (hunit : ∀ t ∈ outputs.head?, t.type.dataSize = .ok unitSize) :
    ∃ decoded, decodeOutputs outputs n = .ok decoded ∧ boxes 0 decoded = reported outputs n := by
  cases outputs with
  | nil => exact ⟨[], rfl, rfl⟩
  | cons first rest =>
    have hreported : reported (first :: rest) n = n.toNat := if_neg (List.cons_ne_nil _ _)
    rw [hreported]
    by_cases hzero : n = 0
    · subst hzero
      exact ⟨_, rfl, rfl⟩
    · simp only [decodeOutputs, if_neg hzero, hunit first rfl]
      exact ⟨_, rfl, rfl⟩

theorem processByData_boxes (hunit : ∀ t ∈ outputs.head?, t.type.dataSize = .ok unitSize) :
    ∃ processed copies, processByData outputs n = .ok (processed, copies) ∧
      boxes 1 processed = reported outputs n ∧
      ∀ t ∈ copies, t.bytes = reported outputs n * unitSize := by
  cases outputs with
  | nil => exact ⟨[], [], rfl, rfl, nofun⟩
  | cons first rest =>
    have hreported : reported (first :: rest) n = n.toNat := if_neg (List.cons_ne_nil _ _)
    rw [hreported]
    by_cases hzero : n = 0
    · subst hzero
      exact ⟨_, _, rfl, rfl, nofun⟩
    · have hsize := hunit first rfl
      have hlt : n.toNat * unitSize < 2 ^ 64 := by
        have hn := n.toNat_lt
        have hunitSize := (dataSize_bounds hsize).2
        calc n.toNat * unitSize ≤ n.toNat * 256 := Nat.mul_le_mul_left _ hunitSize
          _ < 2 ^ 64 := by omega
      simp only [processByData, if_neg hzero, hsize]
      refine ⟨_, _, rfl, rfl, fun t ht => ?_⟩
      obtain rfl := List.mem_singleton.mp ht
      exact Nat.mod_eq_of_lt hlt

/-- The boxes that are shown are those that were read, and nothing larger than the output is moved,
    if and only if the device reports no more boxes than the output has place for. -/
theorem filtered_output_bounded_iff
    (hunit : ∀ t ∈ outputs.head?, t.type.dataSize = .ok unitSize) :
    (∃ transfers decoded processed copies,
      outputHandler task outputs n rmapOutput outputPtr service = .ok transfers ∧
      decodeOutputs outputs n = .ok decoded ∧
      processByData outputs n = .ok (processed, copies) ∧
      Bounded task unitSize transfers decoded processed copies) ↔
    (reported outputs n * unitSize : ℤ) ≤ outputSize task := by
  obtain ⟨decoded, hdecode, hdecoded⟩ := @decodeOutputs_boxes outputs n unitSize hunit
  obtain ⟨processed, copies, hprocess, hprocessed, hcopies⟩ :=
    @processByData_boxes outputs n unitSize hunit
  constructor
  · rintro ⟨_, decoded', _, _, -, hdecode', -, hbounded⟩
    obtain rfl := Except.ok.inj (hdecode.symm.trans hdecode')
    rw [← hdecoded]
    exact hbounded.decoded.1
  · intro hfits
    obtain ⟨transfers, hread, hbytes, htransfers⟩ :=
      @outputHandler_read task outputs n rmapOutput outputPtr service unitSize hunit hfits
    refine ⟨transfers, decoded, processed, copies, hread, hdecode, hprocess, ⟨?_, ?_⟩, ⟨?_, ?_⟩, ?_⟩
    · rwa [hdecoded]
    · rw [hdecoded, hbytes, Nat.cast_mul]
    · rwa [hprocessed]
    · rw [hprocessed, hbytes, Nat.cast_mul]
    · intro t ht
      have hsame : t.bytes = reported outputs n * unitSize :=
        (List.mem_append.mp ht).elim (htransfers t) (hcopies t)
      rw [hsame, Nat.cast_mul]
      exact hfits

end

/-- A task whose output has place for two boxes. -/
def twoBoxes : NpuTask where
  inputSize := 0
  outputSize := 64
  encodedInputSize := 0
  encodedOutputSize := 64
  encodedOutputSizes := []
  encodedOutputOffsets := []
  outputMemSize := 64
  npuModel := {
    rmap := ⟨0, 0, 0, 0⟩
    weight := ⟨0, 0, 0, 0⟩
    outputAllOffset := 0
    lastOutputOffset := 0
    lastOutputSize := 64
    type := .ppcpu
    outputAllSize := 64 }

theorem filtered_output_bounded_iff_two : ∃ transfers decoded processed copies,
    outputHandler twoBoxes [⟨.bbox, [2]⟩] 2 ⟨0, 0, 0, 0⟩ 0 ⟨true, 0, true⟩ = .ok transfers ∧
    decodeOutputs [⟨.bbox, [2]⟩] 2 = .ok decoded ∧
    processByData [⟨.bbox, [2]⟩] 2 = .ok (processed, copies) ∧
    Bounded twoBoxes 32 transfers decoded processed copies :=
  (filtered_output_bounded_iff fun t ht => by
    obtain rfl := Option.some.inj ht
    rfl).mpr (by decide +kernel)

/-- The device reports three boxes: two are read, three are shown, and three are copied. -/
theorem three_boxes_shown :
    outputHandler twoBoxes [⟨.bbox, [2]⟩] 3 ⟨0, 0, 0, 0⟩ 0 ⟨true, 0, true⟩ =
      .ok [.dmaRead 64, .memcpy 64] ∧
    decodeOutputs [⟨.bbox, [2]⟩] 3 = .ok [⟨.bbox, [3, 32]⟩] ∧
    processByData [⟨.bbox, [2]⟩] 3 = .ok ([⟨.bbox, [1, 3]⟩], [.memcpy 96]) ∧
    outputSize twoBoxes = 64 ∧
    ¬Bounded twoBoxes 32 [.dmaRead 64, .memcpy 64] [⟨.bbox, [3, 32]⟩] [⟨.bbox, [1, 3]⟩]
      [.memcpy 96] := by
  refine ⟨by decide +kernel, rfl, by decide +kernel, by decide +kernel, fun h => ?_⟩
  exact absurd h.decoded.1 (by decide +kernel)

end DxRt.Ppcpu
