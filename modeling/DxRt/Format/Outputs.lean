import DxRt.Format.Inputs
import DxRt.Format.Rows

/-! lib/npu_format_handler.cpp: `DecodeOutputs`.

    Outputs of a normal model are decoded one after the other: padded rows by `decode_aligned`, if
    asked for with a transposition behind it, which goes back into the encoded buffer; everything else
    is copied. The other kinds of models have one output. The codes of `decode_aligned` are not looked
    at. What is read beyond the end of a list, a null pointer that is used, and a data type without a
    size end the process. -/

namespace DxRt.NpuFormatHandler

/-- What `DecodeOutputs` reads and writes of a `Tensor`. -/
structure OutputTensor where
  memoryType : DeepxRmapinfo.MemoryType
  type : DataType
  shape : List ℤ
  elemSize : ℕ
  data : ℕ
  deriving DecidableEq

/-- Negative dimensions are left out. -/
def OutputTensor.sizeInBytes (t : OutputTensor) : ℕ :=
  (t.shape.filter fun dim => 0 ≤ dim).foldl (fun n dim => n * dim.toNat % 2 ^ 64) 1 * t.elemSize %
    2 ^ 64

/-- The request of the outputs, with what `DecodeOutputs` reads of its task. -/
structure OutputRequest where
  modelType : ModelType
  isArgMax : Bool
  outputs : List OutputTensor
  encodedOutputPtrs : List ℕ
  npuOutputTensorInfos : List TensorInfo
  encodedOutputSizes : List ℕ
  deriving DecidableEq

/-- What `DecodeOutputs` reads of `dxrt_response_t`. -/
structure Response where
  argmax : ℕ
  ppuFilterNum : ℕ

/-- The memory and the request while the outputs are decoded, with the codes of the decoder. -/
structure DecodeState where
  memory : ProcessMemory
  request : OutputRequest
  codes : List ℤ

namespace DecodeState

/-- The buffers and the description of an output. -/
structure Output where
  tensor : OutputTensor
  info : TensorInfo
  encodedSize : ℕ
  encodedPtr : ℕ

namespace Output

def encoded (x : Output) : Bytes := ⟨x.encodedSize, x.encodedPtr⟩

/-- The size is cut to 32 bits. -/
def decoded (x : Output) : Bytes := ⟨x.tensor.sizeInBytes % 2 ^ 32, x.tensor.data⟩

end Output

def setOutput (s : DecodeState) (i : ℕ) (t : OutputTensor) : DecodeState :=
  { s with request := { s.request with outputs := s.request.outputs.set i t } }

/-- The decoder was called. -/
def decoderDone (s : DecodeState) (e : Encoded) : DecodeState :=
  { s with memory := e.memory, codes := s.codes ++ [e.ret] }

/-- An argmax is written as a number of 16 bits. -/
def writeArgmax (s : DecodeState) (t : OutputTensor) (argmax : ℕ) : DecodeState :=
  { s with memory := s.memory.copyIn t.data 2 fun k => UInt8.ofNat (argmax / 256 ^ k) }

def plainCopy (s : DecodeState) (x : Output) : DecodeState :=
  { s with memory := s.memory.memcpy x.tensor.data x.encodedPtr x.encodedSize }

/-- Channel first: the decoded output is transposed into the encoded buffer, and stays there. -/
def alignedTransposed (s : DecodeState) (i : ℕ) (x : Output) (alloc : Allocs) :
    Option DecodeState := do
  let channel ← x.info.dim? 0
  let elemSize ← dataSizeRmapinfo x.info.dtypeEncoded
  let s := s.decoderDone (decodeAligned s.memory x.encoded x.decoded channel x.info.dtypeEncoded
    x.info.alignUnit alloc.encoder)
  let memory := bidirectionalTranspose s.memory x.tensor.data x.encodedPtr x.info.outerSize channel
    elemSize alloc.transpose
  some ({ s with memory }.setOutput i { x.tensor with data := x.encodedPtr })

/-- The layouts and transpositions; `none` when a dimension or a size is missing. -/
def decodeTensor (s : DecodeState) (i : ℕ) (x : Output) (alloc : Allocs) : Option DecodeState :=
  match x.info.layout, x.info.transpose with
  | .aligned, .none => do
    let channel ← x.info.dim? 0
    some (s.decoderDone (decodeAligned s.memory x.encoded x.decoded channel x.info.dtypeEncoded
      x.info.alignUnit alloc.encoder))
  | .aligned, .channelLastToFirst => s.alignedTransposed i x alloc
  | _, _ => some (s.plainCopy x)

/-- The body of the loop over the outputs. An output without one of its two buffers is left out. -/
def decodeOutput (s : DecodeState) (i : ℕ) (response : Response) (alloc : Allocs) :
    Option DecodeState := do
  let tensor ← s.request.outputs[i]?
  if tensor.memoryType = .argmax then
    if tensor.data = 0 then some s else some (s.writeArgmax tensor response.argmax)
  else
    let info ← s.request.npuOutputTensorInfos[i]?
    if s.request.encodedOutputPtrs.length ≤ i then some s
    else
      let encodedSize ← s.request.encodedOutputSizes[i]?
      let encodedPtr ← s.request.encodedOutputPtrs[i]?
      if encodedPtr = 0 then some s
      else if tensor.data = 0 then some s
      else s.decodeTensor i ⟨tensor, info, encodedSize, encodedPtr⟩ alloc

def decodeLoop (response : Response) (alloc : ℕ → Allocs) (l : List ℕ) (s : DecodeState) :
    Option DecodeState :=
  l.foldlM (fun s i => s.decodeOutput i response (alloc i)) s

/-- The option `--npu-validate`: the encoded buffers are used as they are. -/
def validateOutputs (s : DecodeState) : Option DecodeState :=
  if s.request.outputs.length ≤ s.request.encodedOutputPtrs.length then
    some { s with request := { s.request with
      outputs := (s.request.outputs.zip s.request.encodedOutputPtrs).map fun p =>
        { p.1 with data := p.2 } } }
  else none

/-- The argmax of a model that is one. -/
def decodeArgmax (s : DecodeState) (response : Response) : Option DecodeState := do
  let tensor ← s.request.outputs[0]?
  if tensor.data = 0 then none else some (s.writeArgmax tensor response.argmax)

/-- 128 KiB of boxes are copied. -/
def decodePpu (s : DecodeState) (response : Response) : Option DecodeState :=
  match s.request.outputs[0]? with
  | none => some s
  | some tensor => do
    let encodedPtr ← s.request.encodedOutputPtrs[0]?
    if tensor.data = 0 ∨ encodedPtr = 0 then none
    else some ({ s with memory := s.memory.memcpy tensor.data encodedPtr (128 * 1024) }.setOutput 0
      { tensor with shape := [1, response.ppuFilterNum] })

/-- The boxes are where they belong; only the shape is set. -/
def decodePpcpu (s : DecodeState) (response : Response) : Option DecodeState :=
  match s.request.outputs[0]? with
  | none => some s
  | some tensor =>
    if 0 < response.ppuFilterNum then
      match tensor.type.dataSize with
      | .error _ => none
      | .ok unitSize =>
        some (s.setOutput 0 { tensor with shape := [(response.ppuFilterNum : ℤ), unitSize] })
    else some (s.setOutput 0 { tensor with shape := [0, 0] })

end DecodeState

/-- `DecodeOutputs`; it returns 0 if it returns. -/
def decodeOutputs (npuValidateOpt : Bool) (alloc : ℕ → Allocs) (response : Response)
    (m : ProcessMemory) (r : OutputRequest) : Option DecodeState :=
  let s : DecodeState := ⟨m, r, []⟩
  match r.modelType, r.isArgMax with
  | .normal, _ | .argmax, false =>
    if npuValidateOpt then s.validateOutputs
    else s.decodeLoop response alloc (List.range r.outputs.length)
  | .argmax, true => s.decodeArgmax response
  | .ppu, _ => s.decodePpu response
  | .ppcpu, _ => s.decodePpcpu response

end DxRt.NpuFormatHandler
