import DxRt.Format.Outputs
import DxRt.Lib.Placement

/-! lib/inference_engine.cpp, lib/inference_job.cpp: where the output tensors of a model lie in the
    buffer of the user.

    `_lastOutputOrder` lists the final outputs. The tensor registry, `GetOutputTensorSizes`,
    `GetOutputSize`, `GetOutputs` and the job work out sizes and offsets on their own, each with its
    own search through the tasks. A size and an offset is a `uint64_t` and wraps. -/

namespace DxRt.OutputLayout
open Placement

/-- A `Tensor` with its name; its data and its size are those of `OutputTensor`. -/
structure Tensor (ν : Type*) extends NpuFormatHandler.OutputTensor where
  name : ν
  phyAddr : ℕ
  deriving DecidableEq

/-- `Tensor("", {}, DataType::FLOAT)`, under the given name. -/
def Tensor.blank {ν : Type*} (name : ν) : Tensor ν where
  memoryType := .dram
  type := .float
  shape := []
  elemSize := 4
  data := 0
  name := name
  phyAddr := 0

/-- What the layout reads of a task; `isCpu` says whether it has a `CpuHandle`. -/
structure Task (ν : Type*) where
  name : String
  inputs : List ν
  outputs : List (Tensor ν)
  outputOffsets : List ℕ
  tailOffset : ℤ
  outputSize : ℕ
  isPPU : Bool
  isCpu : Bool

/-- `_tasks` and `_lastOutputOrder`. -/
structure InferenceEngine (ν : Type*) where
  tasks : List (Task ν)
  lastOutputOrder : List ν

variable {ν : Type*} [DecidableEq ν]

/-- `base + offset` of a pointer. -/
def pointer (base : ℕ) (offset : ℤ) : ℕ := ((base + offset) % 2 ^ 64).toNat

/-- `CpuHandle::DetectDynamicShape`. -/
def detectDynamicShape (shape : List ℤ) : Bool := shape.any fun dim => dim ≤ 0

namespace Task

/-- The first output of a name. -/
def output? (t : Task ν) (name : ν) : Option (Tensor ν) := t.outputs.find? fun o => o.name = name

/-- `CpuHandle::HasDynamicOutput`, for a task that has the handle. -/
def cpuHandleHasDynamicOutput (t : Task ν) : Bool :=
  t.isCpu && t.outputs.any fun o => detectDynamicShape o.shape

end Task

/-- `TensorDescriptor`. -/
structure TensorDescriptor where
  producerTask : String
  sizeInBytes : ℕ

/-- The search of `buildTensorRegistry` for the task that produces a tensor. -/
def findProducer (name : ν) : List (Task ν) → TensorDescriptor → TensorDescriptor
  | [], descriptor => descriptor
  | t :: tasks, descriptor =>
    let found : TensorDescriptor := match t.output? name with
      | some o => ⟨t.name, o.sizeInBytes⟩
      | none => descriptor
    if found.producerTask ≠ "" then found else findProducer name tasks found

/-- The size of a tensor for `GetOutputTensorSizes`; a task of the PPU answers for all names. -/
def tryGetOutputTensorSize (name : ν) : List (Task ν) → Option ℕ
  | [] => none
  | t :: tasks =>
    if t.isPPU then some t.outputSize
    else match t.output? name with
      | some o => some o.sizeInBytes
      | none => tryGetOutputTensorSize name tasks

/-- One task of the loops of `GetOutputSize`; a task of the PPU ends them with its own size. -/
def addOutputs (name : ν) (outputSize : ℕ) (t : Task ν) : Except ℕ ℕ :=
  if t.isPPU then .error t.outputSize
  else .ok <| t.outputs.foldl
    (fun n o => if o.name = name then (n + o.sizeInBytes) % 2 ^ 64 else n) outputSize

/-- The search of `GetOutputs` for the size of a tensor. -/
def findTensorSize (name : ν) : List (Task ν) → Option ℕ
  | [] => none
  | t :: tasks =>
    match t.output? name with
    | some o => some o.sizeInBytes
    | none => findTensorSize name tasks

namespace InferenceEngine
variable (m : InferenceEngine ν)

/-! ### The registry and the cached offsets -/

/-- `_tensorRegistry` after `buildTensorRegistry`. -/
def tensorRegistry (name : ν) : Option TensorDescriptor :=
  if m.tasks.any fun t => t.inputs.contains name || t.outputs.any fun o => o.name = name then
    some (findProducer name m.tasks ⟨"", 0⟩)
  else none

/-- `_cachedOutputOffsets` after `calculateTensorOffsets`, and the total size. -/
def calculateTensorOffsets : (ν → Option ℕ) × ℕ :=
  m.lastOutputOrder.foldl (fun state name => match m.tensorRegistry name with
    | some descriptor =>
      (Function.update state.1 name (some state.2), (state.2 + descriptor.sizeInBytes) % 2 ^ 64)
    | none => state) (fun _ => none, 0)

/-- `GetOutputTensorOffset`; 0 for a name without a cached offset. -/
def getOutputTensorOffset (name : ν) : ℕ := (m.calculateTensorOffsets.1 name).getD 0

/-! ### Sizes -/

/-- A name that no task has as an output is left out. -/
def getOutputTensorSizes : List ℕ :=
  m.lastOutputOrder.filterMap fun name => tryGetOutputTensorSize name m.tasks

/-- `HasDynamicOutput`: any task, and any output of it. -/
def hasDynamicOutput : Bool :=
  m.tasks.any fun t => t.cpuHandleHasDynamicOutput || t.outputs.any fun o => o.sizeInBytes = 0

def getOutputSize : ℕ :=
  if m.hasDynamicOutput then 0
  else match m.lastOutputOrder.foldlM (fun n name => m.tasks.foldlM (addOutputs name) n) 0 with
    | .ok outputSize => outputSize
    | .error outputSize => outputSize

/-! ### Tensors in the buffer of the user -/

/-- `finalTensorOffsets` of `GetOutputs`. -/
def finalTensorOffsets : ν → Option ℕ :=
  (m.lastOutputOrder.foldl (fun state name =>
    (Function.update state.1 name (some state.2),
      (state.2 + (findTensorSize name m.tasks).getD 0) % 2 ^ 64)) (fun _ => none, 0)).1

/-- Output `i` of a task, in the buffer at `ptr`: a final output at its offset, another one at the
    offset in its task. -/
def placeOutput (ptr phyAddr : ℕ) (t : Task ν) (o : Tensor ν) (i : ℕ) : Tensor ν :=
  match m.finalTensorOffsets o.name with
  | some offset => { o with data := pointer ptr offset, phyAddr := (phyAddr + offset) % 2 ^ 64 }
  | none =>
    let offset := t.outputOffsets.getD i 0
    { o with data := pointer ptr (offset + t.tailOffset), phyAddr := (phyAddr + offset) % 2 ^ 64 }

/-- The outputs of a task as `GetOutputs` takes them; `nullptr` is 0. -/
def taskOutputs (ptr phyAddr : ℕ) (t : Task ν) : List (Tensor ν) :=
  if ptr = 0 then t.outputs else t.outputs.mapIdx fun i o => m.placeOutput ptr phyAddr t o i

/-- Puts a tensor where the order has its name. -/
def collect (filteredTensors : List (Tensor ν)) (o : Tensor ν) : List (Tensor ν) :=
  List.zipWith (fun name old => if o.name = name then o else old) m.lastOutputOrder filteredTensors

/-- `GetOutputs`; a name that no task has as an output keeps a blank tensor, whose name is `noName`. -/
def getOutputs (noName : ν) (ptr phyAddr : ℕ) : List (Tensor ν) :=
  (m.tasks.flatMap (m.taskOutputs ptr phyAddr)).foldl m.collect
    (List.replicate m.lastOutputOrder.length (Tensor.blank noName))

end InferenceEngine

/-- `BuildUserOutputTensorsForTailTask`; `nullptr` is 0. -/
def buildUserOutputTensorsForTailTask (t : Task ν) (userOutputBase : ℕ) (outputsOrder : List ν) :
    Option (InferenceEngine ν) → List (Tensor ν)
  | none => []
  | some inferenceEngine =>
    if userOutputBase = 0 then []
    else (t.outputs.filter fun o => o.name ∈ outputsOrder).map fun o =>
      { o with data := pointer userOutputBase (inferenceEngine.getOutputTensorOffset o.name) }

/-- The outputs of a task have bytes, and those of a task with a `CpuHandle` positive dimensions. -/
def Task.Sized (t : Task ν) : Prop :=
  ∀ o ∈ t.outputs, o.sizeInBytes ≠ 0 ∧ (t.isCpu = true → ∀ dim ∈ o.shape, 0 < dim)

namespace InferenceEngine

/-- All output tensors, of one task after the other. -/
def outputTensors (m : InferenceEngine ν) : List (Tensor ν) := m.tasks.flatMap Task.outputs

/-- The final outputs have distinct names, each is produced once, and there is no PPU. -/
structure Producible (m : InferenceEngine ν) : Prop where
  nodup : m.lastOutputOrder.Nodup
  produced : ∀ name ∈ m.lastOutputOrder,
    (m.outputTensors.filter fun o => o.name = name).length = 1
  noPPU : ∀ t ∈ m.tasks, t.isPPU = false

/-- The ranges that `GetOutputTensorOffset` and `GetOutputTensorSizes` give, in order. -/
def ranges (m : InferenceEngine ν) : List Range :=
  List.zipWith Range.mk (m.lastOutputOrder.map m.getOutputTensorOffset) m.getOutputTensorSizes

/-- The name, the address and the size of each final output in a buffer at `base`. -/
def table (m : InferenceEngine ν) (base : ℕ) : List (ν × ℕ × ℕ) :=
  List.zipWith (fun name r => (name, pointer base r.start, r.size)) m.lastOutputOrder m.ranges

/-- The name, the address and the size of a tensor. -/
def placed (o : Tensor ν) : ν × ℕ × ℕ := (o.name, o.data, o.sizeInBytes)

/-- All agree on the layout: one range a name, one after the other from 0 on, `GetOutputSize` bytes,
    and the tensors are put there. -/
structure LayoutsAgree (m : InferenceEngine ν) : Prop where
  sizes : m.getOutputTensorSizes.length = m.lastOutputOrder.length
  gapless : ∃ total, Abut 0 m.ranges total
  disjoint : m.ranges.Pairwise fun r s => Disjoint r.bytes s.bytes
  covers : ⋃ r ∈ m.ranges, r.bytes = Set.Ico 0 m.getOutputSize
  outputs : ∀ noName ptr phyAddr, ptr ≠ 0 →
    (m.getOutputs noName ptr phyAddr).map placed = m.table ptr
  built : ∀ t ∈ m.tasks, ∀ base ≠ 0,
    (buildUserOutputTensorsForTailTask t base m.lastOutputOrder (some m)).map Tensor.name =
      (t.outputs.map Tensor.name).filter (· ∈ m.lastOutputOrder) ∧
    ∀ o ∈ buildUserOutputTensorsForTailTask t base m.lastOutputOrder (some m),
      placed o ∈ m.table base

/-- The size of the tensor of a name. -/
def tensorSize (m : InferenceEngine ν) (name : ν) : ℕ :=
  ((m.outputTensors.find? fun o => o.name = name).map fun o => o.sizeInBytes).getD 0

/-- The sizes of the final outputs. -/
def finalSizes (m : InferenceEngine ν) : List ℕ := m.lastOutputOrder.map m.tensorSize

variable {m : InferenceEngine ν} {name : ν}

/-! ### The searches -/

theorem Producible.exists_tensor (h : m.Producible) (hname : name ∈ m.lastOutputOrder) :
    ∃ o : Tensor ν, (m.outputTensors.filter fun o => o.name = name) = [o] ∧ o.name = name ∧
      m.tensorSize name = o.sizeInBytes := by
  obtain ⟨o, ho⟩ := List.length_eq_one_iff.mp (h.produced name hname)
  have hmem : o ∈ m.outputTensors.filter fun o => o.name = name := by rw [ho]; simp
  have hfind : m.outputTensors.find? (fun o => o.name = name) = some o := by
    rw [← List.head?_filter, ho, List.head?_cons]
  refine ⟨o, ho, by simpa using (List.mem_filter.mp hmem).2, ?_⟩
  rw [tensorSize, hfind]
  rfl

theorem findTensorSize_eq (name : ν) (tasks : List (Task ν)) :
    findTensorSize name tasks =
      ((tasks.flatMap Task.outputs).find? fun o => o.name = name).map fun o => o.sizeInBytes := by
  induction tasks with
  | nil => rfl
  | cons t tasks ih =>
    rw [findTensorSize, List.flatMap_cons, List.find?_append, ← Task.output?]
    cases t.output? name with
    | none => simpa using ih
    | some o => rfl

theorem tryGetOutputTensorSize_eq {tasks : List (Task ν)} (h : ∀ t ∈ tasks, t.isPPU = false) :
    tryGetOutputTensorSize name tasks = findTensorSize name tasks := by
  induction tasks with
  | nil => rfl
  | cons t tasks ih =>
    have ht := h t List.mem_cons_self
    rw [tryGetOutputTensorSize, findTensorSize, ht, ih fun u hu => h u (List.mem_cons_of_mem _ hu)]
    rfl

theorem output?_eq_none {t : Task ν} (h : (t.outputs.filter fun o => o.name = name) = []) :
    t.output? name = none := by
  rw [Task.output?, ← List.head?_filter, h, List.head?_nil]

/-- Without a producer the search leaves the descriptor as it is. -/
theorem findProducer_of_not_produced {tasks : List (Task ν)} (descriptor : TensorDescriptor)
    (h : ((tasks.flatMap Task.outputs).filter fun o => o.name = name) = []) :
    findProducer name tasks descriptor = descriptor := by
  induction tasks with
  | nil => rfl
  | cons t tasks ih =>
    rw [List.flatMap_cons, List.filter_append, List.append_eq_nil_iff] at h
    simp only [findProducer, output?_eq_none h.1, ih h.2, ite_self]

/-- With one producer it ends with that one, also if the task has no name. -/
theorem sizeInBytes_findProducer {tasks : List (Task ν)} {o : Tensor ν}
    (h : ((tasks.flatMap Task.outputs).filter fun o => o.name = name) = [o])
    (descriptor : TensorDescriptor) (hd : descriptor.producerTask = "") :
    (findProducer name tasks descriptor).sizeInBytes = o.sizeInBytes := by
  induction tasks with
  | nil => simp at h
  | cons t tasks ih =>
    rw [List.flatMap_cons, List.filter_append, List.append_eq_singleton_iff] at h
    rcases h with ⟨ht, hrest⟩ | ⟨ht, hrest⟩
    · simp only [findProducer, output?_eq_none ht, hd, ne_eq, not_true_eq_false, if_false]
      exact ih hrest
    · have hout : t.output? name = some o := by
        rw [Task.output?, ← List.head?_filter, ht, List.head?_cons]
      simp only [findProducer, hout, findProducer_of_not_produced _ hrest, ite_self]

theorem Producible.tensorRegistry (h : m.Producible) (hname : name ∈ m.lastOutputOrder) :
    ∃ descriptor, m.tensorRegistry name = some descriptor ∧
      descriptor.sizeInBytes = m.tensorSize name := by
  obtain ⟨o, ho, hoName, hsize⟩ := h.exists_tensor hname
  have hmem : o ∈ m.outputTensors := by
    have hfilter : o ∈ m.outputTensors.filter fun o => o.name = name := by rw [ho]; simp
    exact List.mem_of_mem_filter hfilter
  obtain ⟨t, ht, hot⟩ := List.mem_flatMap.mp hmem
  refine ⟨findProducer name m.tasks ⟨"", 0⟩, if_pos ?_, ?_⟩
  · rw [List.any_eq_true]
    refine ⟨t, ht, ?_⟩
    rw [Bool.or_eq_true, List.any_eq_true]
    exact Or.inr ⟨o, hot, by simpa using hoName⟩
  · rw [sizeInBytes_findProducer ho _ rfl, hsize]

/-! ### Offsets -/

theorem findTensorSize_getD (m : InferenceEngine ν) (name : ν) :
    (findTensorSize name m.tasks).getD 0 = m.tensorSize name := by
  rw [findTensorSize_eq]
  rfl

theorem finalTensorOffsets_eq (m : InferenceEngine ν) :
    m.finalTensorOffsets =
      (m.lastOutputOrder.foldl (record (2 ^ 64) m.tensorSize) (fun _ => none, 0)).1 := by
  simp only [finalTensorOffsets, findTensorSize_getD]
  rfl

/-- The registry and `GetOutputs` find the same sizes, and so the same offsets. -/
theorem Producible.calculateTensorOffsets (h : m.Producible) :
    m.calculateTensorOffsets.1 = m.finalTensorOffsets := by
  rw [finalTensorOffsets_eq, InferenceEngine.calculateTensorOffsets]
  congr 1
  refine List.foldl_ext _ _ _ fun state name hname => ?_
  obtain ⟨descriptor, hfind, hsize⟩ := h.tensorRegistry hname
  simp only [hfind, hsize]
  rfl

theorem Producible.map_finalTensorOffsets (h : m.Producible) :
    m.lastOutputOrder.map m.finalTensorOffsets = (offsets (2 ^ 64) 0 m.finalSizes).map some := by
  rw [finalTensorOffsets_eq, map_record h.nodup]
  rfl

theorem Producible.finalTensorOffsets (h : m.Producible) (hname : name ∈ m.lastOutputOrder) :
    m.finalTensorOffsets name = some (m.getOutputTensorOffset name) := by
  have hmem : m.finalTensorOffsets name ∈ (offsets (2 ^ 64) 0 m.finalSizes).map some := by
    rw [← h.map_finalTensorOffsets]
    exact List.mem_map_of_mem hname
  obtain ⟨offset, -, hoffset⟩ := List.mem_map.mp hmem
  rw [getOutputTensorOffset, h.calculateTensorOffsets, ← hoffset]
  rfl

theorem Producible.map_getOutputTensorOffset (h : m.Producible) :
    m.lastOutputOrder.map m.getOutputTensorOffset = offsets (2 ^ 64) 0 m.finalSizes := by
  have hmap := congrArg (List.map fun offset : Option ℕ => offset.getD 0) h.map_finalTensorOffsets
  rw [← h.calculateTensorOffsets, List.map_map, List.map_map] at hmap
  exact hmap.trans (List.map_id _)

/-! ### Sizes -/

theorem Producible.getOutputTensorSizes (h : m.Producible) :
    m.getOutputTensorSizes = m.finalSizes := by
  rw [InferenceEngine.getOutputTensorSizes, finalSizes, ← List.filterMap_eq_map]
  refine List.filterMap_congr fun name hname => ?_
  obtain ⟨o, ho, hoName, hsize⟩ := h.exists_tensor hname
  have hfind : m.outputTensors.find? (fun o => o.name = name) = some o := by
    rw [← List.head?_filter, ho, List.head?_cons]
  rw [tryGetOutputTensorSize_eq h.noPPU, findTensorSize_eq, ← outputTensors, hfind]
  simp [hsize]

theorem Producible.ranges (h : m.Producible) : m.ranges = place (2 ^ 64) 0 m.finalSizes := by
  rw [InferenceEngine.ranges, h.map_getOutputTensorOffset, h.getOutputTensorSizes]
  rfl

/-- Without a PPU the loop over the tasks goes through all output tensors. -/
theorem foldlM_addOutputs {tasks : List (Task ν)} (h : ∀ t ∈ tasks, t.isPPU = false) (n : ℕ) :
    tasks.foldlM (addOutputs name) n = .ok (((tasks.flatMap Task.outputs).filter
      fun o => o.name = name).foldl (fun n o => (n + o.sizeInBytes) % 2 ^ 64) n) := by
  induction tasks generalizing n with
  | nil => rfl
  | cons t tasks ih =>
    have ht := h t List.mem_cons_self
    have hadd : addOutputs name n t = .ok ((t.outputs.filter fun o => o.name = name).foldl
        (fun n o => (n + o.sizeInBytes) % 2 ^ 64) n) := by
      rw [addOutputs, ht, List.foldl_filter]
      simp
    rw [List.foldlM_cons, hadd, List.flatMap_cons, List.filter_append, List.foldl_append]
    exact ih (fun u hu => h u (List.mem_cons_of_mem _ hu)) _

theorem Producible.foldlM_order (h : m.Producible) {names : List ν}
    (hnames : ∀ name ∈ names, name ∈ m.lastOutputOrder) (n : ℕ) :
    names.foldlM (fun n name => m.tasks.foldlM (addOutputs name) n) n =
      .ok ((names.map m.tensorSize).foldl (fun total size => (total + size) % 2 ^ 64) n) := by
  induction names generalizing n with
  | nil => rfl
  | cons name names ih =>
    obtain ⟨o, ho, -, hsize⟩ := h.exists_tensor (hnames name List.mem_cons_self)
    have hrest := ih (fun x hx => hnames x (List.mem_cons_of_mem _ hx)) ((n + o.sizeInBytes) % 2 ^ 64)
    rw [List.foldlM_cons, foldlM_addOutputs h.noPPU, ← outputTensors, ho, List.map_cons,
      List.foldl_cons, hsize]
    exact hrest

theorem Producible.getOutputSize (h : m.Producible) (hdyn : m.hasDynamicOutput = false) :
    m.getOutputSize = m.finalSizes.sum % 2 ^ 64 := by
  have hfold := h.foldlM_order (fun _ hname => hname) 0
  rw [InferenceEngine.getOutputSize, hdyn, hfold]
  simp only [Bool.false_eq_true, if_false]
  rw [foldl_add_mod _ (by decide), Nat.zero_add]
  rfl

omit [DecidableEq ν] in
theorem hasDynamicOutput_eq_false :
    m.hasDynamicOutput = false ↔ ∀ t ∈ m.tasks, t.Sized := by
  simp only [hasDynamicOutput, Task.cpuHandleHasDynamicOutput, detectDynamicShape, Task.Sized,
    List.any_eq_false, Bool.or_eq_true, Bool.and_eq_true, List.any_eq_true, decide_eq_true_eq]
  refine forall₂_congr fun t _ => ?_
  constructor
  · intro h o ho
    refine ⟨fun hsize => h (Or.inr ⟨o, ho, hsize⟩), fun hcpu dim hdim => ?_⟩
    exact not_le.mp fun hle => h (Or.inl ⟨hcpu, o, ho, dim, hdim, hle⟩)
  · rintro h (⟨hcpu, o, ho, dim, hdim, hle⟩ | ⟨o, ho, hsize⟩)
    · exact absurd hle (not_le.mpr ((h o ho).2 hcpu dim hdim))
    · exact (h o ho).1 hsize

/-! ### Tensors in the buffer -/

/-- The tensor at each name of the order is the last one of the name. -/
theorem foldl_collect (tensors filtered : List (Tensor ν))
    (hlen : filtered.length = m.lastOutputOrder.length) :
    tensors.foldl m.collect filtered =
      List.zipWith (fun name old =>
        ((tensors.filter fun o => o.name = name).getLast?).getD old) m.lastOutputOrder filtered := by
  induction tensors generalizing filtered with
  | nil =>
    refine List.ext_getElem (by simp [hlen]) fun i h₁ h₂ => by simp
  | cons o tensors ih =>
    have hlen' : (m.collect filtered o).length = m.lastOutputOrder.length := by
      simp [collect, hlen]
    rw [List.foldl_cons, ih _ hlen']
    refine List.ext_getElem (by simp [collect, hlen]) fun i h₁ h₂ => ?_
    simp only [collect, List.getElem_zipWith, List.filter_cons]
    split
    · next hname => simp [hname, List.getLast?_cons]
    · next hname => simp [hname]

/-- A final output where the layout puts it. -/
def placeFinal (m : InferenceEngine ν) (ptr phyAddr : ℕ) (o : Tensor ν) : Tensor ν :=
  { o with
    data := pointer ptr (m.getOutputTensorOffset o.name)
    phyAddr := (phyAddr + m.getOutputTensorOffset o.name) % 2 ^ 64 }

theorem placeOutput_name (ptr phyAddr : ℕ) (t : Task ν) (o : Tensor ν) (i : ℕ) :
    (m.placeOutput ptr phyAddr t o i).name = o.name := by
  unfold placeOutput
  cases m.finalTensorOffsets o.name <;> rfl

theorem Producible.filter_mapIdx (h : m.Producible) (hname : name ∈ m.lastOutputOrder)
    (ptr phyAddr : ℕ) (t : Task ν) (l : List (Tensor ν)) (k : ℕ) :
    (l.mapIdx fun i o => m.placeOutput ptr phyAddr t o (i + k)).filter (fun o => o.name = name) =
      (l.filter fun o => o.name = name).map (m.placeFinal ptr phyAddr) := by
  induction l generalizing k with
  | nil => rfl
  | cons o l ih =>
    have hrest := ih (k + 1)
    rw [List.mapIdx_cons, List.filter_cons, List.filter_cons, placeOutput_name]
    simp only [Nat.zero_add, Nat.add_assoc, Nat.add_comm 1 k, hrest]
    split
    · next ho =>
      have hmem : o.name ∈ m.lastOutputOrder := by simpa [of_decide_eq_true ho] using hname
      rw [List.map_cons, placeOutput, h.finalTensorOffsets hmem]
      rfl
    · rfl

theorem Producible.filter_taskOutputs (h : m.Producible) (hname : name ∈ m.lastOutputOrder)
    {ptr : ℕ} (hptr : ptr ≠ 0) (phyAddr : ℕ) (tasks : List (Task ν)) :
    (tasks.flatMap (m.taskOutputs ptr phyAddr)).filter (fun o => o.name = name) =
      ((tasks.flatMap Task.outputs).filter fun o => o.name = name).map (m.placeFinal ptr phyAddr) := by
  induction tasks with
  | nil => rfl
  | cons t tasks ih =>
    have ht := h.filter_mapIdx hname ptr phyAddr t t.outputs 0
    rw [List.flatMap_cons, List.filter_append, ih, taskOutputs, if_neg hptr]
    rw [List.flatMap_cons, List.filter_append, List.map_append, ← ht]
    rfl

/-- The entry of a final output in the table. -/
theorem Producible.table_eq (h : m.Producible) (base : ℕ) :
    m.table base = m.lastOutputOrder.map fun name =>
      (name, pointer base (m.getOutputTensorOffset name), m.tensorSize name) := by
  rw [table, InferenceEngine.ranges, h.getOutputTensorSizes, finalSizes]
  refine List.ext_getElem (by simp) fun i h₁ h₂ => by simp

theorem Producible.map_getOutputs (h : m.Producible) (noName : ν) {ptr : ℕ} (hptr : ptr ≠ 0)
    (phyAddr : ℕ) : (m.getOutputs noName ptr phyAddr).map placed = m.table ptr := by
  rw [getOutputs, foldl_collect _ _ (by simp), h.table_eq]
  refine List.ext_getElem (by simp) fun i h₁ h₂ => ?_
  have hi : i < m.lastOutputOrder.length := by simpa using h₂
  obtain ⟨o, ho, hoName, hsize⟩ := h.exists_tensor (List.getElem_mem hi)
  have hfilter : (m.tasks.flatMap (m.taskOutputs ptr phyAddr)).filter
      (fun o => o.name = m.lastOutputOrder[i]) = [m.placeFinal ptr phyAddr o] := by
    rw [h.filter_taskOutputs (List.getElem_mem hi) hptr, ← outputTensors, ho]
    rfl
  simp only [List.getElem_map, List.getElem_zipWith, hfilter, List.getLast?_singleton,
    Option.getD_some]
  rw [hsize, ← hoName]
  rfl

theorem Producible.mem_table_of_built (h : m.Producible) {t : Task ν} (ht : t ∈ m.tasks) {base : ℕ}
    (hbase : base ≠ 0) {o : Tensor ν}
    (ho : o ∈ buildUserOutputTensorsForTailTask t base m.lastOutputOrder (some m)) :
    placed o ∈ m.table base := by
  rw [buildUserOutputTensorsForTailTask, if_neg hbase] at ho
  obtain ⟨x, hx, rfl⟩ := List.mem_map.mp ho
  obtain ⟨hxt, hfinal⟩ := List.mem_filter.mp hx
  have hname : x.name ∈ m.lastOutputOrder := by simpa using hfinal
  obtain ⟨y, hy, -, hsize⟩ := h.exists_tensor hname
  have hmem : x ∈ m.outputTensors.filter fun z => z.name = x.name :=
    List.mem_filter.mpr ⟨List.mem_flatMap.mpr ⟨t, ht, hxt⟩, by simp⟩
  obtain rfl : x = y := by simpa [hy] using hmem
  rw [h.table_eq]
  refine List.mem_map.mpr ⟨x.name, hname, ?_⟩
  rw [hsize]
  rfl

theorem map_name_built (t : Task ν) {base : ℕ} (hbase : base ≠ 0) :
    (buildUserOutputTensorsForTailTask t base m.lastOutputOrder (some m)).map Tensor.name =
      (t.outputs.map Tensor.name).filter (· ∈ m.lastOutputOrder) := by
  rw [buildUserOutputTensorsForTailTask, if_neg hbase, List.map_map, List.filter_map]
  rfl

/-! ### Agreement -/

/-- The ranges cover `GetOutputSize` bytes. -/
theorem Producible.ico_getOutputSize (h : m.Producible) (hwrap : m.finalSizes.sum < 2 ^ 64)
    (hsized : (∀ t ∈ m.tasks, t.Sized) ∨ m.finalSizes.sum = 0) :
    m.getOutputSize = m.finalSizes.sum := by
  cases hdyn : m.hasDynamicOutput with
  | false => rw [h.getOutputSize hdyn, Nat.mod_eq_of_lt hwrap]
  | true =>
    rcases hsized with hsized | hzero
    · rw [hasDynamicOutput_eq_false.mpr hsized] at hdyn
      contradiction
    · rw [InferenceEngine.getOutputSize, hdyn, hzero]
      rfl

theorem getOutputSize_lt (h : m.Producible) : m.getOutputSize < 2 ^ 64 := by
  cases hdyn : m.hasDynamicOutput with
  | false =>
    rw [h.getOutputSize hdyn]
    exact Nat.mod_lt _ (by decide)
  | true =>
    rw [InferenceEngine.getOutputSize, hdyn]
    exact Nat.two_pow_pos 64

/-- Offsets, sizes and placed tensors agree iff the total is a `uint64_t` and no task has an output
    that `HasDynamicOutput` takes for one of dynamic shape, unless there are no bytes at all. -/
theorem layoutsAgree_iff (m : InferenceEngine ν) (h : m.Producible) :
    m.LayoutsAgree ↔
      m.finalSizes.sum < 2 ^ 64 ∧ ((∀ t ∈ m.tasks, t.Sized) ∨ m.finalSizes.sum = 0) := by
  constructor
  · intro hagree
    obtain ⟨total, htotal⟩ := hagree.gapless
    have hsum : total = 0 + m.finalSizes.sum := by
      rw [h.ranges] at htotal
      exact end_of_abut_place htotal
    have hico : Set.Ico 0 total = Set.Ico 0 m.getOutputSize := by
      rw [← htotal.iUnion_bytes, hagree.covers]
    have hsize : m.finalSizes.sum = m.getOutputSize := by
      have hmem : ∀ x, x < total ↔ x < m.getOutputSize := by simpa [Set.ext_iff] using hico
      have htotal' := hmem total
      have hsize' := hmem m.getOutputSize
      omega
    refine ⟨hsize ▸ getOutputSize_lt h, ?_⟩
    cases hdyn : m.hasDynamicOutput with
    | false => exact Or.inl (hasDynamicOutput_eq_false.mp hdyn)
    | true =>
      right
      rw [hsize, InferenceEngine.getOutputSize, hdyn]
      rfl
  · rintro ⟨hwrap, hsized⟩
    have habut : Abut 0 m.ranges (0 + m.finalSizes.sum) := by
      rw [h.ranges]
      exact abut_place (by rwa [Nat.zero_add])
    rw [Nat.zero_add] at habut
    refine ⟨?_, ⟨_, habut⟩, habut.pairwise_disjoint, ?_, ?_, ?_⟩
    · rw [h.getOutputTensorSizes, finalSizes, List.length_map]
    · rw [habut.iUnion_bytes, h.ico_getOutputSize hwrap hsized]
    · intro noName ptr phyAddr hptr
      exact h.map_getOutputs noName hptr phyAddr
    · intro t ht base hbase
      exact ⟨map_name_built t hbase, fun o ho => h.mem_table_of_built ht hbase ho⟩

/-- If `GetOutputSize` is 0, agreement leaves no range with a byte. -/
theorem LayoutsAgree.size_eq_zero (h : m.LayoutsAgree) (hzero : m.getOutputSize = 0) :
    ∀ r ∈ m.ranges, r.size = 0 := by
  intro r hr
  by_contra hsize
  have hmem : r.start ∈ ⋃ r ∈ m.ranges, r.bytes := by
    refine Set.mem_biUnion hr (Set.mem_Ico.mpr ⟨le_rfl, ?_⟩)
    rw [Range.stop]
    omega
  rw [h.covers, hzero] at hmem
  simp at hmem

end InferenceEngine

/-! ### Models -/

/-- An output without a buffer. -/
def output (name : String) (shape : List ℤ) : Tensor String where
  memoryType := .dram
  type := .uint8
  shape := shape
  elemSize := 1
  data := 0
  name := name
  phyAddr := 0

/-- An NPU task. -/
def npuTask (name : String) (inputs : List String) (outputs : List (Tensor String))
    (outputOffsets : List ℕ) (outputSize : ℕ) : Task String where
  name := name
  inputs := inputs
  outputs := outputs
  outputOffsets := outputOffsets
  tailOffset := 0
  outputSize := outputSize
  isPPU := false
  isCpu := false

/-- Two tasks whose outputs are listed the other way round. -/
def twoTails : InferenceEngine String where
  tasks := [npuTask "npu_0" ["image"] [output "scores" [2, 3], output "features" [4]] [0, 6] 10,
    npuTask "npu_1" ["features"] [output "boxes" [5]] [0] 5]
  lastOutputOrder := ["boxes", "scores"]

theorem layoutsAgree_iff_two_tails : twoTails.LayoutsAgree :=
  (InferenceEngine.layoutsAgree_iff twoTails ⟨by decide, by decide, by decide⟩).mpr
    ⟨by decide, Or.inl (InferenceEngine.hasDynamicOutput_eq_false.mp (by decide))⟩

/-- One output is empty. -/
def emptyBoxes : InferenceEngine String where
  tasks := [npuTask "npu_0" ["image"] [output "boxes" [0, 4], output "scores" [2]] [0, 0] 2]
  lastOutputOrder := ["boxes", "scores"]

/-- The scores have two bytes from 0 on, while the output size is 0. -/
theorem empty_boxes_hide_scores :
    emptyBoxes.Producible ∧ (∀ o ∈ emptyBoxes.outputTensors, ∀ dim ∈ o.shape, 0 ≤ dim) ∧
    emptyBoxes.ranges = [⟨0, 0⟩, ⟨0, 2⟩] ∧ emptyBoxes.getOutputSize = 0 ∧
    ¬ emptyBoxes.LayoutsAgree := by
  have hempty : emptyBoxes.ranges = [⟨0, 0⟩, ⟨0, 2⟩] := by decide +kernel
  have hemptySize : emptyBoxes.getOutputSize = 0 := by decide +kernel
  refine ⟨⟨by decide, by decide, by decide⟩, by decide, hempty, hemptySize, fun hagree => ?_⟩
  have hsize := hagree.size_eq_zero hemptySize ⟨0, 2⟩ (by rw [hempty]; simp)
  simp at hsize

end DxRt.OutputLayout
