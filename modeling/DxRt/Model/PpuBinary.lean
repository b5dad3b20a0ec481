import DxRt.Lib.Reads
import DxRt.Model.TaskData

/-! lib/ppu_binary_parser.cpp: `CalculatePpuOutputSize`.

    The sizes are 32-bit. A grid has at most 255 times 255 boxes, there are at most 255 grids, and
    a box has at most 256 bytes; the product of all four stays just below 2^32. -/

namespace DxRt.PpuBinary

/-- `sizeof` of the packed header and of a packed record. -/
def sizeofPpuInfoHeader : ℕ := 4

def sizeofPpuInfo : ℕ := 16

structure PpuInfoHeader where
  version : UInt8
  tensorNum : UInt8
  size : UInt8
  checksum : UInt8

structure PpuOutputSizeInfo where
  maxBoxCount : UInt32
  boxDataSize : UInt32
  totalOutputSize : UInt32
  deriving DecidableEq

/-- The sizes of `DeviceBoundingBox_t`, `DeviceFace_t` and `DevicePose_t`. -/
def getPpuBoxDataSize : DataType → UInt32
  | .bbox => 32
  | .face => 64
  | .pose => 256
  | _ => 0

/-- The vector in its memory; `beyond` is what lies around it. -/
def memory (data : List UInt8) (beyond : ℤ → UInt8) (p : ℤ) : UInt8 :=
  if 0 ≤ p then data[p.toNat]?.getD (beyond p) else beyond p

/-- `_PPU_GRID_WIDTH` and `_PPU_GRID_HEIGHT` of a record. -/
def gridWidth (mem : ℤ → UInt8) (tensor : ℕ) : Reads UInt8 :=
  let place : ℤ := sizeofPpuInfoHeader + tensor * sizeofPpuInfo + 13
  Reads.range place 1 (mem place)

def gridHeight (mem : ℤ → UInt8) (tensor : ℕ) : Reads UInt8 :=
  let place : ℤ := sizeofPpuInfoHeader + tensor * sizeofPpuInfo + 14
  Reads.range place 1 (mem place)

/-- The loop over the records; `left` of them are to come. -/
def accumulate (mem : ℤ → UInt8) : ℕ → ℕ → UInt32 → Reads UInt32
  | 0, _, totalMaxBoxCount => pure totalMaxBoxCount
  | left + 1, idx, totalMaxBoxCount => do
    let width ← gridWidth mem idx
    let height ← gridHeight mem idx
    let tensorBoxCount := width.toUInt32 * height.toUInt32
    accumulate mem left (idx + 1) (totalMaxBoxCount + tensorBoxCount)

def calculatePpuOutputSize (mem : ℤ → UInt8) (size : ℕ) (outputDataType : DataType) :
    Reads PpuOutputSizeInfo :=
  let sizeInfo : PpuOutputSizeInfo := ⟨0, 0, 0⟩
  if size < sizeofPpuInfoHeader then pure sizeInfo
  else do
    let header ← Reads.range 0 sizeofPpuInfoHeader
      (⟨mem 0, mem 1, mem 2, mem 3⟩ : PpuInfoHeader)
    if header.tensorNum = 0 then pure sizeInfo
    else
      let requiredSize := sizeofPpuInfoHeader + header.tensorNum.toNat * sizeofPpuInfo
      if size < requiredSize then pure sizeInfo
      else do
        let totalMaxBoxCount ← accumulate mem header.tensorNum.toNat 0 0
        let boxDataSize := getPpuBoxDataSize outputDataType
        if boxDataSize = 0 then pure sizeInfo
        else pure ⟨totalMaxBoxCount, boxDataSize, totalMaxBoxCount * boxDataSize⟩

/-! ### The boxes of all grids -/

/-- The boxes of a grid. -/
def boxes (mem : ℤ → UInt8) (tensor : ℕ) : ℕ :=
  (mem (4 + tensor * 16 + 13)).toNat * (mem (4 + tensor * 16 + 14)).toNat

theorem boxes_le (mem : ℤ → UInt8) (tensor : ℕ) : boxes mem tensor ≤ 255 * 255 :=
  Nat.mul_le_mul (Nat.le_of_lt_succ (UInt8.toNat_lt _)) (Nat.le_of_lt_succ (UInt8.toNat_lt _))

theorem sum_boxes_le (mem : ℤ → UInt8) (n : ℕ) :
    ∑ i ∈ Finset.range n, boxes mem i ≤ n * (255 * 255) := by
  have hle := Finset.sum_le_card_nsmul (Finset.range n) (boxes mem) _ fun i _ => boxes_le mem i
  simpa using hle

/-- The product of two bytes fits into 32 bits. -/
theorem toNat_mul_bytes (a b : UInt8) :
    (a.toUInt32 * b.toUInt32).toNat = a.toNat * b.toNat := by
  have hlt : a.toNat * b.toNat < 2 ^ 32 := by
    have hle := Nat.mul_le_mul (Nat.le_of_lt a.toNat_lt) (Nat.le_of_lt b.toNat_lt)
    omega
  rw [UInt32.toNat_mul, UInt8.toNat_toUInt32, UInt8.toNat_toUInt32, Nat.mod_eq_of_lt hlt]

theorem accumulate_inside (mem : ℤ → UInt8) {size : ℕ} (n idx : ℕ) (total : UInt32)
    (h : 4 + (idx + n) * 16 ≤ size) : (accumulate mem n idx total).Inside size := by
  induction n generalizing idx total with
  | zero => exact Reads.inside_pure total
  | succ n ih =>
    simp only [accumulate, gridWidth, gridHeight, Reads.inside_bind, Reads.inside_range,
      Reads.result_range, sizeofPpuInfoHeader, sizeofPpuInfo]
    refine ⟨by omega, fun width _ => ⟨by omega, fun height _ => ?_⟩⟩
    exact ih (idx + 1) _ (by omega)

/-- The loop adds up the boxes, as long as their number fits into 32 bits. -/
theorem accumulate_result (mem : ℤ → UInt8) (n idx : ℕ) (total : UInt32)
    (h : total.toNat + ∑ i ∈ Finset.range n, boxes mem (idx + i) < 2 ^ 32) :
    ∃ count, (accumulate mem n idx total).result = some count ∧
      count.toNat = total.toNat + ∑ i ∈ Finset.range n, boxes mem (idx + i) := by
  induction n generalizing idx total with
  | zero => exact ⟨total, rfl, by simp⟩
  | succ n ih =>
    have hfirst : ∑ i ∈ Finset.range (n + 1), boxes mem (idx + i) =
        ∑ i ∈ Finset.range n, boxes mem (idx + 1 + i) + boxes mem idx := by
      rw [Finset.sum_range_succ', Nat.add_zero]
      refine congrArg (· + boxes mem idx) (Finset.sum_congr rfl fun i _ => ?_)
      exact congrArg (boxes mem) (by omega)
    rw [hfirst] at h ⊢
    obtain ⟨product, hproduct⟩ : ∃ product : UInt32, product =
        (mem (4 + idx * 16 + 13)).toUInt32 * (mem (4 + idx * 16 + 14)).toUInt32 := ⟨_, rfl⟩
    have hboxes : product.toNat = boxes mem idx := hproduct ▸ toNat_mul_bytes _ _
    have hadd : (total + product).toNat = total.toNat + boxes mem idx := by
      rw [UInt32.toNat_add, hboxes, Nat.mod_eq_of_lt (by omega)]
    obtain ⟨count, hcount, hsum⟩ := ih (idx + 1) (total + product) (by omega)
    refine ⟨count, ?_, by omega⟩
    simpa [accumulate, gridWidth, gridHeight, Reads.result_bind, sizeofPpuInfoHeader,
      sizeofPpuInfo, hproduct] using hcount

theorem boxDataSize_le (t : DataType) : (getPpuBoxDataSize t).toNat ≤ 256 := by
  cases t <;> decide

/-- With at most 255 grids, the size of all boxes fits into 32 bits. -/
theorem outputSize_lt {n count box : ℕ} (hn : n < 256) (hcount : count ≤ n * (255 * 255))
    (hbox : box ≤ 256) : count * box < 2 ^ 32 :=
  calc count * box ≤ 255 * (255 * 255) * 256 :=
        Nat.mul_le_mul (hcount.trans (Nat.mul_le_mul_right _ (Nat.le_of_lt_succ hn))) hbox
    _ < 2 ^ 32 := by norm_num

/-! ### The vector -/

variable {data : List UInt8} {beyond : ℤ → UInt8}

/-- The number of records, and the boxes of one, as the bytes of the vector give them. -/
def tensorNum (data : List UInt8) : ℕ := (data[1]?.getD 0).toNat

def gridBoxes (data : List UInt8) (tensor : ℕ) : ℕ :=
  (data[4 + tensor * 16 + 13]?.getD 0).toNat * (data[4 + tensor * 16 + 14]?.getD 0).toNat

theorem memory_at {p : ℕ} (h : p < data.length) : memory data beyond p = data[p]?.getD 0 := by
  simp [memory, h]

theorem boxes_memory {tensor : ℕ} (h : 4 + tensor * 16 + 14 < data.length) :
    boxes (memory data beyond) tensor = gridBoxes data tensor := by
  have hwidth : (4 : ℤ) + tensor * 16 + 13 = ((4 + tensor * 16 + 13 : ℕ) : ℤ) := by push_cast; ring
  have hheight : (4 : ℤ) + tensor * 16 + 14 = ((4 + tensor * 16 + 14 : ℕ) : ℤ) := by
    push_cast; ring
  rw [boxes, hwidth, hheight, memory_at (by omega), memory_at h, gridBoxes]

/-- The vector is too short, or has no records. -/
def Rejected (data : List UInt8) : Prop :=
  data.length < 4 + tensorNum data * 16 ∨ tensorNum data = 0

instance : Decidable (Rejected data) := inferInstanceAs (Decidable (_ ∨ _))

/-- Only the vector is read. It is rejected with zeros, or the counts are exact. -/
theorem ppu_output_size (data : List UInt8) (beyond : ℤ → UInt8) (t : DataType)
    (ht : t = .bbox ∨ t = .face ∨ t = .pose) :
    (calculatePpuOutputSize (memory data beyond) data.length t).Inside data.length ∧
      ∃ info, (calculatePpuOutputSize (memory data beyond) data.length t).result = some info ∧
        (Rejected data → info = ⟨0, 0, 0⟩) ∧
        (¬ Rejected data →
          info.maxBoxCount.toNat = ∑ i ∈ Finset.range (tensorNum data), gridBoxes data i ∧
          info.boxDataSize = getPpuBoxDataSize t ∧
          info.totalOutputSize.toNat = info.maxBoxCount.toNat * (getPpuBoxDataSize t).toNat) := by
  have hbox : getPpuBoxDataSize t ≠ 0 := by
    rcases ht with rfl | rfl | rfl <;> decide
  by_cases hheader : data.length < 4
  · have hreject : Rejected data := Or.inl (by omega)
    simp [calculatePpuOutputSize, sizeofPpuInfoHeader, hheader, hreject]
  have hnum : (memory data beyond 1).toNat = tensorNum data := by
    rw [tensorNum, ← memory_at (by omega : 1 < data.length)]
    rfl
  have hlt : tensorNum data < 256 := UInt8.toNat_lt _
  have hzero : memory data beyond 1 = 0 ↔ tensorNum data = 0 := by
    rw [← hnum, ← UInt8.toNat_inj]
    rfl
  have hread : (0 : ℤ) + sizeofPpuInfoHeader ≤ data.length := by
    rw [sizeofPpuInfoHeader]
    omega
  simp only [calculatePpuOutputSize, if_neg (show ¬ data.length < sizeofPpuInfoHeader from hheader),
    Reads.inside_bind, Reads.inside_range, Reads.result_bind, Reads.result_range,
    Option.bind_some, le_refl, hread, true_and, Option.some.injEq, forall_eq', hzero, hnum]
  by_cases hnone : tensorNum data = 0
  · have hreject : Rejected data := Or.inr hnone
    simp [hnone, hreject]
  simp only [if_neg hnone]
  by_cases hshort : data.length < 4 + tensorNum data * 16
  · have hreject : Rejected data := Or.inl hshort
    simp [hshort, hreject, sizeofPpuInfoHeader, sizeofPpuInfo]
  have haccept : ¬ Rejected data := not_or.mpr ⟨hshort, hnone⟩
  have hboxes : ∑ i ∈ Finset.range (tensorNum data), boxes (memory data beyond) (0 + i) =
      ∑ i ∈ Finset.range (tensorNum data), gridBoxes data i := by
    refine Finset.sum_congr rfl fun i hi => ?_
    have hi := Finset.mem_range.mp hi
    rw [Nat.zero_add]
    exact boxes_memory (by omega)
  have hle : ∑ i ∈ Finset.range (tensorNum data), boxes (memory data beyond) (0 + i) ≤
      tensorNum data * (255 * 255) := by
    simpa only [Nat.zero_add] using sum_boxes_le (memory data beyond) (tensorNum data)
  obtain ⟨count, hcount, hsum⟩ := accumulate_result (memory data beyond) (tensorNum data) 0 0 (by
    have hbound := outputSize_lt hlt hle (le_refl 256)
    rw [UInt32.toNat_zero]
    omega)
  rw [UInt32.toNat_zero, Nat.zero_add] at hsum
  have htotal := outputSize_lt hlt (hsum ▸ hle) (boxDataSize_le t)
  simp only [sizeofPpuInfoHeader, sizeofPpuInfo, if_neg hshort, if_neg hbox, Reads.inside_bind,
    Reads.result_bind, Reads.inside_pure, Reads.result_pure, hcount, Option.bind_some,
    implies_true, and_true]
  refine ⟨accumulate_inside _ _ _ _ (by omega), _, rfl, fun hreject => absurd hreject haccept,
    fun _ => ⟨hsum.trans hboxes, rfl, ?_⟩⟩
  rw [UInt32.toNat_mul, Nat.mod_eq_of_lt htotal]

/-- One grid of two times three boxes. -/
theorem ppu_output_size_one_grid :
    ∃ info, (calculatePpuOutputSize
      (memory ([1, 1, 16, 0] ++ List.replicate 13 0 ++ [2, 3, 0]) fun _ => 0) 20 .bbox).result =
        some info ∧ info.maxBoxCount.toNat = 6 ∧ info.totalOutputSize.toNat = 192 := by
  obtain ⟨-, info, hresult, -, hexact⟩ := ppu_output_size
    ([1, 1, 16, 0] ++ List.replicate 13 0 ++ [2, 3, 0]) (fun _ => 0) .bbox (Or.inl rfl)
  obtain ⟨hcount, -, htotal⟩ := hexact (by decide)
  have hcount : info.maxBoxCount.toNat = 6 := hcount
  exact ⟨info, hresult, hcount, by rw [htotal, hcount]; rfl⟩

end DxRt.PpuBinary
