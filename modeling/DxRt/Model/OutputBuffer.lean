import DxRt.Lib.Extremes
import DxRt.Model.TaskData
import DxRt.Service.Aliases

/-! lib/task_data.cpp, lib/task.cpp, lib/device_pool/acc_device_task_layer.cpp: the host buffer of
    the encoded output.

    `OutputHandler` copies the span of the outputs, `SetOutputBuffer` reserves the sum of their
    sizes. The copy fits when the outputs lie close together; a gap between two of them is copied
    but not reserved. An argmax among other outputs is looked for behind the output memory. -/

namespace DxRt
open DeepxRmapinfo TaskData

/-- `encoded_output_size()`: the size of a host buffer for the encoded output. -/
def NpuTask.encodedOutputBufferSize (task : NpuTask) : ℤ :=
  MemFDService.toInt32 task.encodedOutputSize

namespace OutputBuffer

/-- All outputs together. -/
def total (info : RegisterInfoDatabase) : ℤ := (info.outputs.map fun t => t.memory.size).sum

/-- The 32-bit fields have the values they are computed from. -/
structure NoWrap (info : RegisterInfoDatabase) (task : NpuTask) : Prop where
  sizes : task.encodedOutputSizes.map Nat.cast = info.outputs.map fun t => t.memory.size
  total : (task.encodedOutputSize : ℤ) = total info
  lastOutputOffset : (task.npuModel.lastOutputOffset : ℤ) =
    info.output.offset + lastOutputLowerBound info.outputs
  lastOutputSize : (task.npuModel.lastOutputSize : ℤ) =
    lastOutputUpperBound info.outputs - lastOutputLowerBound info.outputs

/-- The copy fits into the buffer, and every output lies in what is copied. -/
structure Fits (info : RegisterInfoDatabase) (task : NpuTask) : Prop where
  copied : (task.npuModel.lastOutputSize : ℤ) ≤ task.encodedOutputBufferSize
  inside : List.Forall₂ (fun offset size => offset + size ≤ task.npuModel.lastOutputSize)
    task.encodedOutputOffsets task.encodedOutputSizes
  noWrap : NoWrap info task

/-- The outputs lie close together, and an argmax does not lie behind them. -/
structure Compact (info : RegisterInfoDatabase) : Prop where
  sizes : ∀ t ∈ info.outputs, 0 ≤ t.memory.size
  total_lt : total info < 2 ^ 31
  start : ∃ t ∈ info.outputs, t.memory.offset < 2 ^ 63 - 1
  near : ∀ a ∈ info.outputs, ∀ b ∈ info.outputs, b.memory.finish - a.memory.offset ≤ total info
  argmax : ∀ a ∈ info.outputs, a.memory.type = .argmax →
    ∃ b ∈ info.outputs, HandleTable.toUint64 info.output.size + a.memory.size ≤ b.memory.finish

/-! ### Bounds and sums -/

section Bounds
variable {outputs : List TensorInfo} {t : TensorInfo}

theorem lowerBound_eq (h : ∃ t ∈ outputs, t.memory.offset < 2 ^ 63 - 1) :
    lastOutputLowerBound outputs =
      outputs.foldl (fun lower t => min lower t.memory.offset) (2 ^ 63 - 1) := by
  have hlt : outputs.foldl (fun lower t => min lower t.memory.offset) (2 ^ 63 - 1) ≤ 2 ^ 63 - 2 := by
    obtain ⟨t, ht, hlt⟩ := h
    exact List.foldl_min_le_iff.mpr (Or.inr ⟨t, ht, by omega⟩)
  rw [lastOutputLowerBound, if_neg (by omega)]

theorem lowerBound_le (h : ∃ t ∈ outputs, t.memory.offset < 2 ^ 63 - 1) (ht : t ∈ outputs) :
    lastOutputLowerBound outputs ≤ t.memory.offset := by
  rw [lowerBound_eq h]
  exact List.foldl_min_le_iff.mpr (Or.inr ⟨t, ht, le_rfl⟩)

theorem exists_lowerBound (h : ∃ t ∈ outputs, t.memory.offset < 2 ^ 63 - 1) :
    ∃ t ∈ outputs, t.memory.offset ≤ lastOutputLowerBound outputs := by
  rw [lowerBound_eq h]
  rcases List.foldl_min_le_iff.mp
    (le_refl (outputs.foldl (fun lower t => min lower t.memory.offset) (2 ^ 63 - 1))) with
    hmax | hex
  · obtain ⟨t, ht, hlt⟩ := h
    exact ⟨t, ht, hlt.le.trans hmax⟩
  · exact hex

/-- When every output begins at the largest number, that counts as 0. -/
theorem lowerBound_eq_zero (h : ∀ t ∈ outputs, 2 ^ 63 - 1 ≤ t.memory.offset) :
    lastOutputLowerBound outputs = 0 := by
  have hle : outputs.foldl (fun lower t => min lower t.memory.offset) (2 ^ 63 - 1) = 2 ^ 63 - 1 :=
    le_antisymm (List.foldl_min_le_iff.mpr (Or.inl le_rfl))
      (List.le_foldl_min_iff.mpr ⟨le_rfl, h⟩)
  rw [lastOutputLowerBound, if_pos hle]

theorem finish_le_upperBound (ht : t ∈ outputs) :
    t.memory.finish ≤ lastOutputUpperBound outputs :=
  List.le_foldl_max_iff.mpr (Or.inr ⟨t, ht, le_rfl⟩)

theorem exists_upperBound (ht : t ∈ outputs) (hnonneg : 0 ≤ t.memory.finish) :
    ∃ b ∈ outputs, lastOutputUpperBound outputs ≤ b.memory.finish := by
  rcases List.le_foldl_max_iff.mp (le_refl (lastOutputUpperBound outputs)) with hzero | hex
  · exact ⟨t, ht, hzero.trans hnonneg⟩
  · exact hex

end Bounds

theorem encodedSize_eq (tensors : List TensorInfo) :
    (encodedSize tensors : ℤ) = (tensors.map fun t => t.memory.size).sum % 2 ^ 32 := by
  have hfold : ∀ sum : ℕ, sum < 2 ^ 32 →
      ((tensors.foldl (fun sum t => toUint32 (sum + t.memory.size)) sum : ℕ) : ℤ) =
        (sum + (tensors.map fun t => t.memory.size).sum) % 2 ^ 32 := by
    induction tensors with
    | nil =>
      intro sum hsum
      simp only [List.foldl_nil, List.map_nil, List.sum_nil]
      omega
    | cons t rest ih =>
      intro sum _
      rw [List.foldl_cons, ih _ (by rw [toUint32]; omega), List.map_cons, List.sum_cons, toUint32]
      omega
  rw [encodedSize, hfold 0 (by norm_num)]
  simp

theorem encodedSize_lt (tensors : List TensorInfo) : encodedSize tensors < 2 ^ 32 := by
  have heq := encodedSize_eq tensors
  omega

theorem toInt32_eq (x : ℕ) : MemFDService.toInt32 x =
    if x % 2 ^ 32 < 2 ^ 31 then ((x % 2 ^ 32 : ℕ) : ℤ) else ((x % 2 ^ 32 : ℕ) : ℤ) - 2 ^ 32 := by
  unfold MemFDService.toInt32
  rw [Int.bmod_def]
  push_cast
  split_ifs <;> omega

theorem toUint32_eq_iff {x : ℤ} : (toUint32 x : ℤ) = x ↔ 0 ≤ x ∧ x < 2 ^ 32 := by
  rw [toUint32]; omega

/-! ### When the copy fits -/

section Fitting
variable {info : RegisterInfoDatabase} {task : NpuTask}

theorem sizes_eq_iff (hc : Common info task) :
    (task.encodedOutputSizes.map Nat.cast = info.outputs.map fun t => t.memory.size) ↔
      ∀ t ∈ info.outputs, 0 ≤ t.memory.size ∧ t.memory.size < 2 ^ 32 := by
  rw [hc.encodedOutputSizes, List.map_map, List.map_inj_left]
  exact forall₂_congr fun t _ => toUint32_eq_iff

/-- An output lies in the copy when its end does not exceed the upper bound. -/
theorem inside_iff (hc : Common info task) :
    List.Forall₂ (fun offset size => offset + size ≤ task.npuModel.lastOutputSize)
        task.encodedOutputOffsets task.encodedOutputSizes ↔
      ∀ t ∈ info.outputs, rawOffset info t - (lastOutputLowerBound info.outputs).toNat +
        toUint32 t.memory.size ≤ task.npuModel.lastOutputSize := by
  rw [hc.encodedOutputOffsets, hc.encodedOutputSizes, List.forall₂_map_left_iff,
    List.forall₂_map_right_iff, List.forall₂_same]

/-- Where the sizes fit, the span is the distance of two outputs. -/
theorem size_le_total (hsizes : ∀ t ∈ info.outputs, 0 ≤ t.memory.size) {t : TensorInfo}
    (ht : t ∈ info.outputs) : t.memory.size ≤ total info :=
  List.single_le_sum (fun _ hx => by
    obtain ⟨t, ht, rfl⟩ := List.mem_map.mp hx
    exact hsizes t ht) _ (List.mem_map_of_mem ht)

theorem start_of_noWrap (hacc : Accepted info) (hsizes : ∀ t ∈ info.outputs, 0 ≤ t.memory.size)
    (h : lastOutputUpperBound info.outputs - lastOutputLowerBound info.outputs < 2 ^ 32) :
    ∃ t ∈ info.outputs, t.memory.offset < 2 ^ 63 - 1 := by
  by_contra hnone
  push Not at hnone
  obtain ⟨t, ht⟩ := List.exists_mem_of_ne_nil _ hacc.outputs
  have hupper := finish_le_upperBound ht
  have hlower := lowerBound_eq_zero hnone
  have hsize := hsizes t ht
  have hoffset := hnone t ht
  rw [Memory.finish] at hupper
  omega

theorem compact_of_fits (hacc : Accepted info) (hc : Common info task) (h : Fits info task) :
    Compact info := by
  have hrange := (sizes_eq_iff hc).mp h.noWrap.sizes
  have hsizes : ∀ t ∈ info.outputs, 0 ≤ t.memory.size := fun t ht => (hrange t ht).1
  have hspan := h.noWrap.lastOutputSize
  have hlast : task.npuModel.lastOutputSize < 2 ^ 32 := by
    rw [hc.lastOutputSize, toUint32]; omega
  have htotal : total info < 2 ^ 31 ∧ (task.npuModel.lastOutputSize : ℤ) ≤ total info := by
    have hcopied := h.copied
    have hsum := h.noWrap.total
    have hlt := encodedSize_lt info.outputs
    rw [← hc.encodedOutputSize] at hlt
    rw [NpuTask.encodedOutputBufferSize, toInt32_eq] at hcopied
    split_ifs at hcopied
    · exact ⟨by omega, by omega⟩
    · exact absurd hcopied (by omega)
  have hstart := start_of_noWrap hacc hsizes (by omega)
  refine ⟨hsizes, htotal.1, hstart, ?_, ?_⟩
  · intro a ha b hb
    have hlower := lowerBound_le hstart ha
    have hupper := finish_le_upperBound hb
    omega
  · intro a ha hargmax
    have hin := (inside_iff hc).mp h.inside a ha
    have hraw := hacc.raw a ha
    have hsize := toUint32_eq_iff.mpr (hrange a ha)
    have hlower := lowerBound_le hstart ha
    obtain ⟨b, hb, hle⟩ := exists_upperBound ha (by
      rw [Memory.finish]
      exact add_nonneg (hacc.lower_nonneg.trans hlower) (hsizes a ha))
    have heq : rawOffset info a = HandleTable.toUint64 info.output.size := by
      rw [rawOffset, hargmax]
    have hnonneg := hacc.lower_nonneg
    refine ⟨b, hb, ?_⟩
    omega

/-- The end of an output that begins at a number that is not negative. -/
theorem finish_nonneg (hacc : Accepted info) (h : Compact info) {t : TensorInfo}
    (ht : t ∈ info.outputs) : 0 ≤ t.memory.offset ∧ 0 ≤ t.memory.finish := by
  have hoffset := hacc.lower_nonneg.trans (lowerBound_le h.start ht)
  exact ⟨hoffset, add_nonneg hoffset (h.sizes t ht)⟩

/-- The span is the distance of two outputs. -/
theorem span_le (hacc : Accepted info) (h : Compact info) :
    lastOutputUpperBound info.outputs - lastOutputLowerBound info.outputs ≤ total info := by
  obtain ⟨a, ha, hlower⟩ := exists_lowerBound h.start
  obtain ⟨b, hb, hupper⟩ := exists_upperBound ha (finish_nonneg hacc h ha).2
  have hnear := h.near a ha b hb
  omega

/-- Wherever an output is looked for, it ends before the last one ends. -/
theorem rawOffset_add_size_le (hacc : Accepted info) (h : Compact info) {t : TensorInfo}
    (ht : t ∈ info.outputs) :
    (rawOffset info t : ℤ) + t.memory.size ≤ lastOutputUpperBound info.outputs := by
  have hupper := finish_le_upperBound ht
  obtain ⟨hoffset, hfinish⟩ := finish_nonneg hacc h ht
  rw [Memory.finish] at hupper hfinish
  -- what is not kept at its offset is an argmax or an output of the PPU
  have hkept : rawOffset info t = HandleTable.toUint64 t.memory.offset →
      (rawOffset info t : ℤ) + t.memory.size ≤ lastOutputUpperBound info.outputs := by
    intro hraw
    obtain ⟨a, ha, hlt⟩ := h.start
    have hnear := h.near a ha t ht
    have htotal := h.total_lt
    have hsize := h.sizes t ht
    rw [Memory.finish] at hnear
    rw [hraw, HandleTable.toUint64]
    omega
  cases htype : t.memory.type with
  | none => exact hkept (by rw [rawOffset, htype])
  | dram => exact hkept (by rw [rawOffset, htype])
  | argmax =>
    obtain ⟨b, hb, hle⟩ := h.argmax t ht htype
    have hraw : rawOffset info t = HandleTable.toUint64 info.output.size := by
      rw [rawOffset, htype]
    rw [hraw]
    exact hle.trans (finish_le_upperBound hb)
  | ppu =>
    have hraw : rawOffset info t = 0 := by rw [rawOffset, htype]
    rw [hraw]
    omega

theorem fits_of_compact (hacc : Accepted info) (hc : Common info task) (h : Compact info) :
    Fits info task := by
  have htotal := h.total_lt
  have hspan := span_le hacc h
  have hrange : ∀ t ∈ info.outputs, 0 ≤ t.memory.size ∧ t.memory.size < 2 ^ 32 := fun t ht =>
    ⟨h.sizes t ht, by have hle := size_le_total h.sizes ht; omega⟩
  have hlast : (task.npuModel.lastOutputSize : ℤ) =
      lastOutputUpperBound info.outputs - lastOutputLowerBound info.outputs := by
    rw [hc.lastOutputSize]
    exact toUint32_eq_iff.mpr ⟨sub_nonneg.mpr hacc.lower_le, by omega⟩
  have hsum : (task.encodedOutputSize : ℤ) = total info := by
    have hnonneg := hacc.lower_le
    rw [hc.encodedOutputSize, encodedSize_eq, ← total]
    omega
  refine ⟨?_, ?_, (sizes_eq_iff hc).mpr hrange, hsum, ?_, hlast⟩
  · rw [NpuTask.encodedOutputBufferSize, MemFDService.toInt32_of_lt (by omega)]
    omega
  · refine (inside_iff hc).mpr fun t ht => ?_
    have hle := rawOffset_add_size_le hacc h ht
    have hraw := hacc.raw t ht
    have hsize := toUint32_eq_iff.mpr (hrange t ht)
    have hnonneg := hacc.lower_nonneg
    omega
  · rw [hc.lastOutputOffset]
    exact Int.toNat_of_nonneg hacc.last_nonneg

end Fitting

/-- A normal model: the copy fits into the host buffer, with every output in it, exactly when the
    outputs lie close together. -/
theorem copy_fits_buffer (addr : List UInt8 → ℕ) (info : RegisterInfoDatabase)
    (data : List (List UInt8)) (hasPpuBinary : Bool) (task : NpuTask)
    (h : setFromNpu addr info data hasPpuBinary = .ok task)
    (hnormal : task.npuModel.type = .normal) :
    Fits info task ↔ Compact info := by
  obtain ⟨base, task', hacc, hbase, hkind, rfl⟩ := setFromNpu_ok h
  have hc : Common info { task' with outputMemSize := task'.npuModel.outputAllSize } := by
    cases hkind with
    | ppcpu => cases hnormal
    | argmax => cases hnormal
    | ppu => cases hnormal
    | normal => exact { hbase with }
  exact ⟨compact_of_fits hacc hc, fits_of_compact hacc hc⟩

/-- A model with one input and two outputs of 64 bytes, the second output at `offset`. -/
def twoOutputs (offset : ℤ) (type : DeepxRmapinfo.MemoryType) : RegisterInfoDatabase where
  inputs := [⟨[64], .uint8, ⟨0, 64, .dram⟩⟩]
  outputs := [⟨[64], .uint8, ⟨0, 64, .dram⟩⟩, ⟨[64], .uint8, ⟨offset, 64, type⟩⟩]
  output := ⟨0, 192, .dram⟩
  ppuType := -1

/-- The task of such a model. -/
def twoOutputsTask (offset : ℤ) (type : DeepxRmapinfo.MemoryType) : Except RmapFault NpuTask :=
  setFromNpu (fun _ => 0) (twoOutputs offset type) [[1], [2]] false

theorem copy_fits_buffer_adjacent : ∃ task, twoOutputsTask 64 .dram = .ok task ∧
    (Fits (twoOutputs 64 .dram) task ↔ Compact (twoOutputs 64 .dram)) :=
  ⟨_, rfl, copy_fits_buffer (fun _ => 0) (twoOutputs 64 .dram) [[1], [2]] false _ rfl rfl⟩

/-- A gap of 64 bytes: 192 bytes are copied into 128. -/
theorem copy_exceeds_buffer : ∃ task, twoOutputsTask 128 .dram = .ok task ∧
    task.npuModel.type = .normal ∧ task.npuModel.lastOutputSize = 192 ∧
      task.encodedOutputBufferSize = 128 ∧ ¬ Fits (twoOutputs 128 .dram) task := by
  refine ⟨_, rfl, rfl, by decide, by decide, fun h => ?_⟩
  exact absurd h.copied (by decide)

/-- An argmax behind an output: it is looked for 192 bytes into a copy of 128. -/
example : ∃ task, twoOutputsTask 64 .argmax = .ok task ∧ task.npuModel.type = .normal ∧
    task.npuModel.lastOutputSize = 128 ∧ task.encodedOutputOffsets = [0, 192] :=
  ⟨_, rfl, rfl, by decide, by decide⟩

end OutputBuffer
end DxRt
