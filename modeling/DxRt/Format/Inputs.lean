import DxRt.Format.Encode

/-! lib/npu_format_handler.cpp: `EncodeInputs`.

    Each input of a request is brought into the layout that its task wants: by one of the encoders,
    by an encoder and a transposition, or as a plain copy; a single input that already has the
    encoded size is used in place. The codes of the encoders are not looked at. A shape without the
    dimensions that a layout reads, and a data type without a size, end the process. The build is the
    portable one, without IPP, NEON and VNPU. -/

namespace DxRt.NpuFormatHandler

/-! ### Transposition -/

/-- The pairs of a row and a column, in the order of the loops. -/
def cells (row col : ℤ) : List (ℕ × ℕ) := List.range row.toNat ×ˢ List.range col.toNat

def elementOffset (stride : ℤ) (elementSize i j : ℕ) : ℕ :=
  (i * stride.toNat + j) * elementSize % 2 ^ 64

/-- The bytes of two elements are exchanged. -/
def swap (m : ProcessMemory) (ptr1 ptr2 elementSize : ℕ) : ProcessMemory :=
  (m.memcpy ptr1 ptr2 elementSize).copyIn ptr2 elementSize fun k => m (ptr1 + k)

/-- A square is transposed by exchanges above the diagonal, anything else through a buffer. -/
def bidirectionalTransposeInplace (m : ProcessMemory) (src : ℕ) (row col : ℤ) (elementSize : ℕ)
    (alloc : Bool) : ProcessMemory :=
  if src = 0 then m
  else if row ≤ 0 ∨ col ≤ 0 ∨ elementSize = 0 then m
  else
    let totalElements := row.toNat * col.toNat % 2 ^ 64
    let totalSizeBytes := totalElements * elementSize % 2 ^ 64
    if totalSizeBytes / elementSize ≠ totalElements then m
    else if totalSizeBytes = 0 then m
    else if alloc = false then m
    else if row = col then
      ((cells row col).filter fun p => p.1 < p.2).foldl (fun m p =>
        swap m (src + elementOffset col elementSize p.1 p.2)
          (src + elementOffset col elementSize p.2 p.1) elementSize) m
    else if ∀ p ∈ cells row col, elementOffset col elementSize p.1 p.2 + elementSize ≤
        totalSizeBytes ∧ elementOffset row elementSize p.2 p.1 + elementSize ≤ totalSizeBytes then
      let temp : ProcessMemory := (cells row col).foldl (fun t p =>
        t.copyIn (elementOffset row elementSize p.2 p.1) elementSize fun k =>
          m (src + elementOffset col elementSize p.1 p.2 + k)) fun _ => 0
      m.copyIn src totalSizeBytes temp
    else m

def bidirectionalTranspose (m : ProcessMemory) (src dst : ℕ) (row col : ℤ) (elementSize : ℕ)
    (alloc : Bool) : ProcessMemory :=
  if src = 0 ∨ dst = 0 then m
  else if row ≤ 0 ∨ col ≤ 0 ∨ elementSize = 0 then m
  else if src = dst then bidirectionalTransposeInplace m src row col elementSize alloc
  else (cells row col).foldl (fun m p =>
    m.memcpy (dst + elementOffset row elementSize p.2 p.1)
      (src + elementOffset col elementSize p.1 p.2) elementSize) m

/-! ### Requests -/

inductive Layout where
  | none | preFormatter | preIm2col | formatted | aligned | ppuYolo | ppuFd | ppuPose
  deriving DecidableEq

inductive Transpose where
  | none | channelFirstToLast | channelLastToFirst
  deriving DecidableEq

/-- What the encoders read of `deepx_rmapinfo::TensorInfo`. -/
structure TensorInfo where
  layout : Layout
  transpose : Transpose
  shapeEncoded : List ℤ
  dtypeEncoded : DataType
  alignUnit : ℤ
  deriving DecidableEq

/-- The dimension at the place `back` from the end, as an `int`. -/
def TensorInfo.dim? (info : TensorInfo) (back : ℕ) : Option ℤ :=
  (info.shapeEncoded.reverse[back]?).map toInt32

/-- The product of all dimensions but the last one. -/
def TensorInfo.outerSize (info : TensorInfo) : ℤ :=
  info.shapeEncoded.dropLast.foldl (fun col d => toInt32 (col * toInt32 d)) 1

/-- `GetDataSize_rmapinfo_datatype`; a type without a size ends the process. -/
def dataSizeRmapinfo : DataType → Option ℕ
  | .uint8 | .int8 => some 1
  | .uint16 | .int16 => some 2
  | .uint32 | .int32 | .float => some 4
  | .uint64 | .int64 => some 8
  | .none | .bbox | .face | .pose => none

/-- Columns and units of an aligned tensor count elements; the encoder wants bytes. -/
def TensorInfo.scale (info : TensorInfo) (x : ℤ) : ℤ :=
  if info.dtypeEncoded = .float then toInt32 (x * 4) else x

structure InputTensor where
  sizeInBytes : ℕ
  data : ℕ
  deriving DecidableEq

/-- `RequestData`, with `_npuInputTensorInfos` and `_encodedInputSizes` of its task; `outputs` is the
    number of outputs. -/
structure RequestData where
  inputs : List InputTensor
  outputs : ℕ
  encodedInputsPtr : ℕ
  encodedInputPtrs : List ℕ
  npuInputTensorInfos : List TensorInfo
  encodedInputSizes : List ℕ
  deriving DecidableEq

/-- Whether there is memory for the temporary buffers of an encoder and of a transposition. -/
structure Allocs where
  encoder : Bool
  transpose : Bool

/-- The memory and the request while the inputs are encoded, with the codes of the encoders. -/
structure EncodeState where
  memory : ProcessMemory
  reqData : RequestData
  codes : List ℤ

/-- How `EncodeInputs` comes to its end. -/
inductive EncodeOutcome where
  | returned (ret : ℤ)
  /-- An exception that the library itself throws. -/
  | threw
  /-- The process has ended, or what it does is undefined. -/
  | ended
  deriving DecidableEq

namespace EncodeState

/-- The buffers of an input are of one input, and so is its description. -/
structure Input where
  tensor : InputTensor
  info : TensorInfo
  encodedSize : ℕ
  encodedPtr : ℕ

namespace Input

/-- `original_input`; the size is cut to 32 bits. -/
def original (x : Input) : Bytes := ⟨x.tensor.sizeInBytes % 2 ^ 32, x.tensor.data⟩

def encoded (x : Input) : Bytes := ⟨x.encodedSize, x.encodedPtr⟩

end Input

end EncodeState

open EncodeState in
/-- `can_skip_input_copy`. -/
def RequestData.canSkipInputCopy (r : RequestData) (x : Input) : Bool :=
  r.inputs.length = 1 ∧ x.tensor.sizeInBytes = x.encodedSize

namespace EncodeState

/-- An encoder was called. -/
def encoderDone (s : EncodeState) (e : Encoded) : EncodeState :=
  { s with memory := e.memory, codes := s.codes ++ [e.ret] }

/-- The buffer of the user is taken for the encoded one. -/
def redirect (s : EncodeState) (i : ℕ) (x : Input) : EncodeState :=
  { s with
    reqData := { s.reqData with
      encodedInputsPtr := x.tensor.data
      encodedInputPtrs := s.reqData.encodedInputPtrs.set i x.tensor.data } }

def plainCopy (s : EncodeState) (x : Input) : EncodeState :=
  { s with memory := s.memory.memcpy x.encodedPtr x.tensor.data x.original.size }

/-- Channel first: the input is encoded, and the result is transposed where it is. -/
def formattedTransposed (s : EncodeState) (x : Input) (alloc : Allocs) : Option EncodeState := do
  let channel ← x.info.dim? 0
  let elemSize ← dataSizeRmapinfo x.info.dtypeEncoded
  let s := s.encoderDone
    (encodeFormatted s.memory x.original x.encoded channel x.info.alignUnit alloc.encoder)
  some { s with
    memory := bidirectionalTranspose s.memory x.encodedPtr x.encodedPtr channel x.info.outerSize
      elemSize alloc.transpose }

/-- Channel first: the input is transposed into the encoded buffer, and encoded there. -/
def alignedTransposed (s : EncodeState) (x : Input) (alloc : Allocs) : Option EncodeState := do
  let channel ← x.info.dim? 0
  let elemSize ← dataSizeRmapinfo x.info.dtypeEncoded
  let memory := bidirectionalTranspose s.memory x.tensor.data x.encodedPtr channel
    x.info.outerSize elemSize alloc.transpose
  some (s.encoderDone (encode memory ⟨x.original.size, x.encodedPtr⟩ x.encoded
    (x.info.scale channel) (x.info.scale x.info.alignUnit) alloc.encoder))

/-- The layouts and transpositions; `none` when a dimension or a size is missing. -/
def encodeTensor (s : EncodeState) (i : ℕ) (x : Input) (alloc : Allocs) : Option EncodeState :=
  let skip := s.reqData.canSkipInputCopy x
  match x.info.layout, x.info.transpose with
  | .preFormatter, _ =>
    if skip then some (s.redirect i x)
    else some (s.encoderDone
      (encodePreformatter s.memory x.original x.encoded x.info.alignUnit alloc.encoder))
  | .preIm2col, _ =>
    if skip then some (s.redirect i x)
    else do
      let width ← x.info.dim? 1
      let channel ← x.info.dim? 0
      some (s.encoderDone
        (encodePreim2col s.memory x.original x.encoded width channel x.info.alignUnit alloc.encoder))
  | .formatted, .none =>
    if skip then some (s.redirect i x)
    else do
      let channel ← x.info.dim? 0
      some (s.encoderDone
        (encodeFormatted s.memory x.original x.encoded channel x.info.alignUnit alloc.encoder))
  | .formatted, .channelFirstToLast => s.formattedTransposed x alloc
  | .aligned, .none =>
    if skip then some (s.redirect i x)
    else do
      let channel ← x.info.dim? 0
      some (s.encoderDone (encode s.memory x.original x.encoded (x.info.scale channel)
        (x.info.scale x.info.alignUnit) alloc.encoder))
  | .aligned, .channelFirstToLast => s.alignedTransposed x alloc
  | _, _ => if skip then some (s.redirect i x) else some (s.plainCopy x)

end EncodeState

open EncodeState

/-- The buffers and the description of input `i`; `none` when it has no encoded buffer. -/
def RequestData.input? (r : RequestData) (i : ℕ) : Option Input := do
  let encodedPtr ← r.encodedInputPtrs[i]?
  let tensor ← r.inputs[i]?
  let info ← r.npuInputTensorInfos[i]?
  let encodedSize ← r.encodedInputSizes[i]?
  if encodedPtr = 0 then none else some ⟨tensor, info, encodedSize, encodedPtr⟩

/-- The loop over the inputs; an exception may be thrown at input `throwsAt`. -/
def encodeLoop (alloc : ℕ → Allocs) (throwsAt : Option ℕ) :
    List ℕ → EncodeState → EncodeState × EncodeOutcome
  | [], s => (s, .returned 0)
  | i :: rest, s =>
    match s.reqData.input? i with
    | none => (s, .returned (-1))
    | some x =>
      if throwsAt = some i then (s, .threw)
      else if x.tensor.data = 0 then (s, .returned (-1))
      else match s.encodeTensor i x (alloc i) with
        | none => (s, .ended)
        | some s => encodeLoop alloc throwsAt rest s

/-- The option `--npu-validate`: the inputs are used as they are, one for each output. -/
def validatePtrs (r : RequestData) : Option RequestData :=
  if r.outputs ≤ r.encodedInputPtrs.length ∧ r.outputs ≤ r.inputs.length then
    some { r with
      encodedInputPtrs := (r.inputs.take r.outputs).map InputTensor.data ++
        r.encodedInputPtrs.drop r.outputs }
  else none

def encodeInputs (npuValidateOpt : Bool) (alloc : ℕ → Allocs) (throwsAt : Option ℕ)
    (m : ProcessMemory) (r : RequestData) : EncodeState × EncodeOutcome :=
  let s : EncodeState := ⟨m, r, []⟩
  if npuValidateOpt then
    match validatePtrs r with
    | none => (s, .ended)
    | some r => (⟨m, r, []⟩, .returned 0)
  else if r.inputs.length = 0 then (s, .returned 0)
  else if r.npuInputTensorInfos.length < r.inputs.length ∨
      r.encodedInputSizes.length < r.inputs.length then (s, .returned (-1))
  else encodeLoop alloc throwsAt (List.range r.inputs.length) s

/-! ### When no encoder reports an error -/

/-- The encoder that layout and transposition select, if any, is called and accepts the input. -/
def InputFits (r : RequestData) (x : Input) (alloc : Allocs) : Prop :=
  let skip := r.canSkipInputCopy x = true
  match x.info.layout, x.info.transpose with
  | .preFormatter, _ =>
    skip ∨ PreformatterFits x.original x.encoded x.info.alignUnit alloc.encoder
  | .preIm2col, _ => skip ∨ ∃ width ∈ x.info.dim? 1, ∃ channel ∈ x.info.dim? 0,
      Preim2colFits x.original x.encoded width channel x.info.alignUnit alloc.encoder
  | .formatted, .none => skip ∨ ∃ channel ∈ x.info.dim? 0,
      FormattedFits x.original x.encoded channel x.info.alignUnit alloc.encoder
  | .formatted, .channelFirstToLast => ∃ channel ∈ x.info.dim? 0,
      (dataSizeRmapinfo x.info.dtypeEncoded).isSome ∧
      FormattedFits x.original x.encoded channel x.info.alignUnit alloc.encoder
  | .aligned, .none => skip ∨ ∃ channel ∈ x.info.dim? 0,
      Fits x.original x.encoded (x.info.scale channel) (x.info.scale x.info.alignUnit) alloc.encoder
  | .aligned, .channelFirstToLast => ∃ channel ∈ x.info.dim? 0,
      (dataSizeRmapinfo x.info.dtypeEncoded).isSome ∧
      Fits ⟨x.original.size, x.encodedPtr⟩ x.encoded (x.info.scale channel)
        (x.info.scale x.info.alignUnit) alloc.encoder
  | _, _ => True

/-- The first inputs, as far as they have buffers, all fit. -/
def AllFit (r : RequestData) (alloc : ℕ → Allocs) : List ℕ → Prop
  | [] => True
  | i :: rest => ∀ x ∈ r.input? i, x.tensor.data ≠ 0 →
      InputFits r x (alloc i) ∧ AllFit r alloc rest

/-- No encoder reports an error, and all that is read is there. -/
def RequestData.Encodable (npuValidateOpt : Bool) (alloc : ℕ → Allocs) (r : RequestData) : Prop :=
  if npuValidateOpt then r.outputs ≤ r.encodedInputPtrs.length ∧ r.outputs ≤ r.inputs.length
  else r.inputs.length ≤ r.npuInputTensorInfos.length ∧
      r.inputs.length ≤ r.encodedInputSizes.length →
    AllFit r alloc (List.range r.inputs.length)

namespace EncodeState

/-- An input is done: nothing is missing, and its encoder, if there was one, has reported no error;
    only its own pointer may have changed. -/
structure Done (s s' : EncodeState) (i : ℕ) : Prop where
  codes : ∀ code ∈ s'.codes, code ∈ s.codes ∨ code = 0
  inputs : s'.reqData.inputs = s.reqData.inputs
  others : ∀ j, j ≠ i → s'.reqData.input? j = s.reqData.input? j

theorem done_redirect (s : EncodeState) (i : ℕ) (x : Input) : Done s (s.redirect i x) i where
  codes _ hcode := Or.inl hcode
  inputs := rfl
  others j hj := by simp only [RequestData.input?, redirect, List.getElem?_set_ne hj.symm]

theorem done_encoder {s : EncodeState} (i : ℕ) {e : Encoded} (he : e.ret = 0) :
    Done s (s.encoderDone e) i where
  codes code hcode := by
    rcases List.mem_append.mp hcode with hcode | hcode
    · exact Or.inl hcode
    · exact Or.inr ((List.mem_singleton.mp hcode).trans he)
  inputs := rfl
  others _ _ := rfl

theorem done_memory {s s' : EncodeState} {i : ℕ} (h : Done s s' i) (memory : ProcessMemory) :
    Done s { s' with memory } i := ⟨h.codes, h.inputs, h.others⟩

end EncodeState

/-- An input that is used in place is done. -/
theorem done_skip {s : EncodeState} {i : ℕ} {x : Input} {skip : Bool} {fits : Prop}
    {encode : Option EncodeState} (h : skip = true ∨ fits)
    (hencode : fits → ∃ s', encode = some s' ∧ Done s s' i) :
    ∃ s', (if skip then some (s.redirect i x) else encode) = some s' ∧ Done s s' i := by
  split_ifs with hskip
  · exact ⟨_, rfl, done_redirect s i x⟩
  · exact hencode (h.resolve_left hskip)

theorem formattedTransposed_fits {s : EncodeState} {i : ℕ} {x : Input} {alloc : Allocs}
    (h : ∃ channel ∈ x.info.dim? 0, (dataSizeRmapinfo x.info.dtypeEncoded).isSome ∧
      FormattedFits x.original x.encoded channel x.info.alignUnit alloc.encoder) :
    ∃ s', s.formattedTransposed x alloc = some s' ∧ Done s s' i := by
  obtain ⟨channel, hdim, hsize, hfits⟩ := h
  obtain ⟨elemSize, hsize⟩ := Option.isSome_iff_exists.mp hsize
  rw [Option.mem_def] at hdim
  rw [formattedTransposed, hdim, hsize]
  exact ⟨_, rfl, done_memory (done_encoder i ((encodeFormatted_ret ..).accepts hfits)) _⟩

theorem alignedTransposed_fits {s : EncodeState} {i : ℕ} {x : Input} {alloc : Allocs}
    (h : ∃ channel ∈ x.info.dim? 0, (dataSizeRmapinfo x.info.dtypeEncoded).isSome ∧
      Fits ⟨x.original.size, x.encodedPtr⟩ x.encoded (x.info.scale channel)
        (x.info.scale x.info.alignUnit) alloc.encoder) :
    ∃ s', s.alignedTransposed x alloc = some s' ∧ Done s s' i := by
  obtain ⟨channel, hdim, hsize, hfits⟩ := h
  obtain ⟨elemSize, hsize⟩ := Option.isSome_iff_exists.mp hsize
  rw [Option.mem_def] at hdim
  rw [alignedTransposed, hdim, hsize]
  exact ⟨_, rfl, done_encoder i ((encode_ret ..).accepts hfits)⟩

/-- An input that fits is done. -/
theorem encodeTensor_fits {s : EncodeState} {i : ℕ} {x : Input} {alloc : Allocs}
    (h : InputFits s.reqData x alloc) : ∃ s', s.encodeTensor i x alloc = some s' ∧ Done s s' i := by
  rw [encodeTensor]
  rw [InputFits] at h
  generalize x.info.layout = layout at h ⊢
  generalize x.info.transpose = transpose at h ⊢
  match layout, transpose, h with
  | .preFormatter, _, h =>
    exact done_skip h fun hfits =>
      ⟨_, rfl, done_encoder i ((encodePreformatter_ret ..).accepts hfits)⟩
  | .preIm2col, _, h =>
    refine done_skip h ?_
    rintro ⟨width, hwidth, channel, hchannel, hfits⟩
    rw [Option.mem_def] at hwidth hchannel
    rw [hwidth, hchannel]
    exact ⟨_, rfl, done_encoder i ((encodePreim2col_ret ..).accepts hfits)⟩
  | .formatted, .none, h =>
    refine done_skip h ?_
    rintro ⟨channel, hchannel, hfits⟩
    rw [Option.mem_def] at hchannel
    rw [hchannel]
    exact ⟨_, rfl, done_encoder i ((encodeFormatted_ret ..).accepts hfits)⟩
  | .formatted, .channelFirstToLast, h => exact formattedTransposed_fits h
  | .aligned, .none, h =>
    refine done_skip h ?_
    rintro ⟨channel, hchannel, hfits⟩
    rw [Option.mem_def] at hchannel
    rw [hchannel]
    exact ⟨_, rfl, done_encoder i ((encode_ret ..).accepts hfits)⟩
  | .aligned, .channelFirstToLast, h => exact alignedTransposed_fits h
  | .formatted, .channelLastToFirst, _ | .aligned, .channelLastToFirst, _ | .none, _, _
  | .ppuYolo, _, _ | .ppuFd, _, _ | .ppuPose, _, _ =>
    exact done_skip (Or.inr trivial) fun _ => ⟨_, rfl, ⟨fun _ => Or.inl, rfl, fun _ _ => rfl⟩⟩

/-- A loop over inputs that fit neither ends the process nor meets an encoder that reports an
    error. -/
theorem encodeLoop_fits {r : RequestData} {alloc : ℕ → Allocs} {throwsAt : Option ℕ} :
    ∀ {pending : List ℕ} {s : EncodeState}, pending.Nodup → s.reqData.inputs = r.inputs →
      (∀ j ∈ pending, s.reqData.input? j = r.input? j) → AllFit r alloc pending →
      (encodeLoop alloc throwsAt pending s).2 ≠ .ended ∧
        ∀ code ∈ (encodeLoop alloc throwsAt pending s).1.codes, code ∈ s.codes ∨ code = 0
  | [], s, _, _, _, _ => ⟨nofun, fun _ => Or.inl⟩
  | i :: rest, s, hnodup, hinputs, hsame, hfit => by
    obtain ⟨hi, hrest⟩ := List.nodup_cons.mp hnodup
    rw [encodeLoop]
    cases hinput : s.reqData.input? i with
    | none => exact ⟨nofun, fun _ => Or.inl⟩
    | some x =>
      simp only
      split_ifs with hthrows hdata
      · exact ⟨nofun, fun _ => Or.inl⟩
      · exact ⟨nofun, fun _ => Or.inl⟩
      obtain ⟨hx, hrestFit⟩ := hfit x ((hsame i List.mem_cons_self).symm.trans hinput) hdata
      have hfits : InputFits s.reqData x (alloc i) := by
        rw [InputFits, RequestData.canSkipInputCopy, hinputs]
        exact hx
      obtain ⟨s', hs', hdone⟩ := encodeTensor_fits hfits
      rw [hs']
      have hkept : ∀ j ∈ rest, s'.reqData.input? j = r.input? j := by
        intro j hj
        rw [hdone.others j fun heq => hi (heq ▸ hj)]
        exact hsame j (List.mem_cons_of_mem _ hj)
      obtain ⟨hended, hcodes⟩ :=
        encodeLoop_fits hrest (hdone.inputs.trans hinputs) hkept hrestFit
      refine ⟨hended, fun code hcode => ?_⟩
      rcases hcodes code hcode with hcode | hcode
      · exact hdone.codes code hcode
      · exact Or.inr hcode

/-- The inputs of a request that can be encoded. -/
theorem encodeInputs_encodable {npuValidateOpt : Bool} {alloc : ℕ → Allocs}
    (throwsAt : Option ℕ) (m : ProcessMemory) {r : RequestData}
    (h : r.Encodable npuValidateOpt alloc) :
    (encodeInputs npuValidateOpt alloc throwsAt m r).2 ≠ .ended ∧
      ∀ code ∈ (encodeInputs npuValidateOpt alloc throwsAt m r).1.codes, code = 0 := by
  rw [encodeInputs]
  rw [RequestData.Encodable] at h
  split_ifs at h ⊢ with hvalidate hempty hsizes
  · rw [validatePtrs, if_pos h]
    exact ⟨nofun, nofun⟩
  · exact ⟨nofun, nofun⟩
  · exact ⟨nofun, nofun⟩
  · rw [not_or, not_lt, not_lt] at hsizes
    obtain ⟨hended, hcodes⟩ := encodeLoop_fits (s := ⟨m, r, []⟩) List.nodup_range rfl (fun _ _ => rfl) (h hsizes)
    exact ⟨hended, fun code hcode => (hcodes code hcode).resolve_left nofun⟩

theorem encodeLoop_quiet (alloc : ℕ → Allocs) : ∀ (pending : List ℕ) (s : EncodeState),
    (encodeLoop alloc none pending s).2 ≠ .threw
  | [], s => nofun
  | i :: rest, s => by
    rw [encodeLoop]
    cases s.reqData.input? i with
    | none => exact nofun
    | some x =>
      simp only [reduceCtorEq, if_false]
      split_ifs
      · exact nofun
      · cases s.encodeTensor i x (alloc i) with
        | none => exact nofun
        | some s' => exact encodeLoop_quiet alloc rest s'

/-- Where nothing throws, `EncodeInputs` does not throw. -/
theorem encodeInputs_quiet (npuValidateOpt : Bool) (alloc : ℕ → Allocs) (m : ProcessMemory)
    (r : RequestData) : (encodeInputs npuValidateOpt alloc none m r).2 ≠ .threw := by
  rw [encodeInputs]
  split_ifs
  · cases validatePtrs r <;> exact nofun
  · exact nofun
  · exact nofun
  · exact encodeLoop_quiet alloc _ _

end DxRt.NpuFormatHandler
