import DxRt.Format.Groups
import DxRt.Format.Inputs

/-! lib/npu_format_handler.cpp: what the conversions write.

    Each conversion that accepts its arguments is a program of stores: the clearing of the
    destination and the copies of its loops. -/

namespace DxRt.NpuFormatHandler
open Blocks Stores

variable {m : ProcessMemory} {input output : Bytes} {col unit : ℤ} {alloc : Bool}

/-! ### Numbers of 32 bits -/

theorem toInt32_bounds (x : ℤ) : -2 ^ 31 ≤ toInt32 x ∧ toInt32 x < 2 ^ 31 := by
  rw [toInt32, Int.bmod_def]
  omega

theorem rows_lt (size : ℕ) (col : ℤ) : rows size col < 2 ^ 31 := (toInt32_bounds _).2

theorem toUint32_toInt32 {x : ℕ} (h : x < 2 ^ 32) : toUint32 (toInt32 x) = x := by
  rw [toUint32, toInt32, Int.bmod_def]
  omega

/-- The rows start less than 2^62 bytes away from the start of the buffer. -/
theorem rowOffset_bounds {i : ℕ} (row : ℤ) {wide : ℤ} (hi : i < row.toNat) (hrow : row < 2 ^ 31)
    (hwide : -2 ^ 31 ≤ wide ∧ wide < 2 ^ 31) : -2 ^ 62 ≤ i * wide ∧ i * wide ≤ 2 ^ 62 := by
  have habs : |(i : ℤ) * wide| ≤ 2 ^ 31 * 2 ^ 31 := by
    rw [abs_mul]
    exact mul_le_mul (by rw [Nat.abs_cast]; omega) (abs_le.mpr ⟨hwide.1, hwide.2.le⟩)
      (abs_nonneg _) (by norm_num)
  have hbounds := abs_le.mp habs
  omega

/-- Where `col + unit` overflows, there are no groups. -/
theorem cdiv_nonpos {col unit : ℤ} (hcol : 0 < col ∧ col < 2 ^ 31) (hunit : 0 < unit ∧ unit < 2 ^ 31)
    (hwidth : 2 ^ 31 < col + unit) : cdiv col unit ≤ 0 ∧ -2 ^ 31 ≤ cdiv col unit * unit := by
  have hunit' : toInt32 (unit - 1) = unit - 1 := toInt32_of_bounds (by omega) (by omega)
  have hsum : toInt32 (col + (unit - 1)) = -(2 ^ 32 - col - unit + 1) := by
    rw [toInt32, Int.bmod_def]
    omega
  rw [cdiv, if_neg hunit.1.ne', hunit', hsum, Int.neg_tdiv,
    Int.tdiv_eq_ediv_of_nonneg (by omega)]
  have hnonneg : 0 ≤ (2 ^ 32 - col - unit + 1) / unit := Int.ediv_nonneg (by omega) hunit.1.le
  have hmul := Int.ediv_mul_le (2 ^ 32 - col - unit + 1) hunit.1.ne'
  rw [neg_mul]
  omega

/-- The columns are aligned already, and nothing overflows. -/
theorem width_of_aligned {col unit : ℕ} (hcol : 0 < col) (hunit : 0 < unit) (hcol' : col < 2 ^ 31)
    (hunit' : unit < 2 ^ 31) (h : alignedCol col unit = col) :
    col + unit ≤ 2 ^ 31 ∧ alignUp col unit = col := by
  have hwidth : col + unit ≤ 2 ^ 31 := by
    by_contra hwide
    obtain ⟨hnone, hlow⟩ : cdiv (col : ℤ) unit ≤ 0 ∧ -2 ^ 31 ≤ cdiv (col : ℤ) unit * unit :=
      cdiv_nonpos (by omega) (by omega) (by omega)
    have hneg : cdiv (col : ℤ) unit * unit ≤ 0 := mul_nonpos_of_nonpos_of_nonneg hnone (by omega)
    rw [alignedCol, toInt32_of_bounds hlow (by omega)] at h
    omega
  refine ⟨hwidth, ?_⟩
  rw [alignedCol_eq hcol hunit hwidth] at h
  exact_mod_cast h

/-! ### encode -/

/-- The rows, from the input or from the copy of it. -/
def rowCopies (m : ProcessMemory) (input output : Bytes) (col unit : ℤ) : List (Store UInt8) :=
  copies (fun m' (i : ℕ) k =>
      (if input.data = output.data then m else m') (input.data + (toSize (i * col) + k)))
    (fun i => toSize (output.data + i * alignedCol col unit)) (fun _ => col.toNat)
    (List.range (rows input.size col).toNat)

/-- In place, rows without padding stay where they are. -/
def encodeStores (m : ProcessMemory) (input output : Bytes) (col unit : ℤ) : List (Store UInt8) :=
  if input.data = output.data ∧ col = alignedCol col unit then []
  else clear output.data (expectedSize input.size col unit) :: rowCopies m input output col unit

theorem encode_eq (h : Fits input output col unit alloc) :
    encode m input output col unit alloc = ⟨replay (encodeStores m input output col unit) m,
      ⟨expectedSize input.size col unit, output.data⟩, 0⟩ := by
  have hcol := h.colPos
  have hunit := h.unitPos
  rw [encode, if_neg (by omega), if_neg (not_not.mpr h.whole), if_neg h.source]
  simp only [if_neg h.destination, if_neg (not_lt.mpr h.room)]
  by_cases hsame : input.data = output.data
  · rw [if_pos hsame]
    by_cases hdense : col = alignedCol col unit
    · rw [if_pos hdense, encodeStores, if_pos ⟨hsame, hdense⟩, replay_nil]
    · rw [if_neg hdense, if_neg (by rw [h.buffer hsame hdense]; decide), copyRows_eq, encodeStores,
        if_neg fun h => hdense h.2, replay_cons, clear_run, rowCopies]
      simp only [if_pos hsame]
  · rw [if_neg hsame, copyRows_eq, encodeStores, if_neg fun h => hsame h.1, replay_cons, clear_run,
      rowCopies]
    simp only [if_neg hsame]

/-! ### encode_formatted -/

/-- In place, the copy of the input is made after the output has been cleared. -/
def groupCopies (m : ProcessMemory) (input output : Bytes) (col unit : ℤ) : List (Store UInt8) :=
  copies (fun m' p k => (if input.data = output.data then
        m.memset output.data 0 (expectedSize input.size col unit) else m')
      (input.data + (srcAddr col unit p.1 p.2 + k)))
    (fun p => output.data + dstAddr (rows input.size col) unit p.1 p.2)
    (fun p => (copySize col unit p.1).toNat) (groupRows col unit (rows input.size col))

def formattedStores (m : ProcessMemory) (input output : Bytes) (col unit : ℤ) :
    List (Store UInt8) :=
  if input.size = 0 then []
  else clear output.data (expectedSize input.size col unit) :: groupCopies m input output col unit

/-- The size of the output; nothing is computed for an empty input. -/
def formattedSize (size : ℕ) (col unit : ℤ) : ℕ :=
  if size = 0 then 0 else expectedSize size col unit

theorem encodeFormatted_eq (h : FormattedFits input output col unit alloc) :
    encodeFormatted m input output col unit alloc =
      ⟨replay (formattedStores m input output col unit) m,
        ⟨formattedSize input.size col unit, output.data⟩, 0⟩ := by
  have hcol := h.channelPos
  have hunit := h.unitPos
  rw [encodeFormatted]
  simp only
  rw [if_neg (by omega), if_neg h.source]
  by_cases hempty : input.size = 0
  · rw [if_pos hempty, formattedStores, if_pos hempty, formattedSize, if_pos hempty, replay_nil]
  rw [if_neg hempty, if_neg (not_not.mpr h.whole), if_neg (h.destination hempty), formattedStores,
    if_neg hempty, formattedSize, if_neg hempty, replay_cons, clear_run, groupCopies]
  have hcopies := h.copies hempty
  by_cases hsame : input.data = output.data
  · rw [if_pos hsame, if_neg (by rw [h.buffer hempty hsame]; decide)]
    simp only [if_pos hsame, copyGroups_eq hcopies]
  · rw [if_neg hsame]
    simp only [if_neg hsame, copyGroups_eq hcopies]

/-- A group starts inside a row, as far as `int` can tell. -/
theorem groupRows_bounds {row : ℤ} {p : ℕ × ℕ} (hunit : 0 < unit) (hp : p ∈ groupRows col unit row) :
    (p.1 : ℤ) * unit < 2 ^ 31 ∧ (p.2 : ℤ) < row := by
  rw [groupRows, List.mem_product, List.mem_range, List.mem_range, cdiv, if_neg hunit.ne'] at hp
  obtain ⟨hgroup, hrow⟩ := hp
  refine ⟨?_, by omega⟩
  have hsum := toInt32_bounds (col + toInt32 (unit - 1))
  generalize toInt32 (col + toInt32 (unit - 1)) = sum at hgroup hsum
  have hpos : 0 < sum := by
    by_contra hneg
    have hnone : 0 ≤ (-sum).tdiv unit := Int.tdiv_nonneg (by omega) hunit.le
    rw [Int.neg_tdiv] at hnone
    omega
  rw [Int.tdiv_eq_ediv_of_nonneg hpos.le] at hgroup
  have hlt : (p.1 : ℤ) < sum / unit := by omega
  have hle : (p.1 : ℤ) * unit ≤ sum / unit * unit := mul_le_mul_of_nonneg_right hlt.le hunit.le
  have hmul := Int.ediv_mul_le sum hunit.ne'
  omega

/-- The check of a copy is exact: nothing wraps around in 64 bits. -/
theorem inBuffers_iff {row : ℤ} {size expected g i : ℕ} (hcol : 0 < col ∧ col < 2 ^ 31)
    (hunit : 0 < unit ∧ unit < 2 ^ 31) (hrow : row < 2 ^ 31) (hp : (g, i) ∈ groupRows col unit row)
    (hcopy : 0 < copySize col unit g) : InBuffers size expected row col unit g i ↔
      srcAddr col unit g i + (copySize col unit g).toNat ≤ size ∧
        dstAddr row unit g i + (copySize col unit g).toNat ≤ expected := by
  obtain ⟨hgroup, hi⟩ := groupRows_bounds hunit.1 hp
  simp only at hgroup hi
  have hle : copySize col unit g ≤ unit := by
    simp only [copySize]
    split_ifs <;> omega
  have hsource : (i : ℤ) * col ≤ 2 ^ 31 * 2 ^ 31 := mul_le_mul (by omega) hcol.2.le hcol.1.le (by norm_num)
  have hplace : (i : ℤ) * unit ≤ 2 ^ 31 * 2 ^ 31 := mul_le_mul (by omega) hunit.2.le hunit.1.le (by norm_num)
  have hbase : (g : ℤ) * row * unit ≤ 2 ^ 31 * 2 ^ 31 := by
    calc (g : ℤ) * row * unit = g * unit * row := by ring
      _ ≤ 2 ^ 31 * 2 ^ 31 := mul_le_mul hgroup.le hrow.le (by omega) (by norm_num)
  have hnonneg : 0 ≤ (i : ℤ) * col ∧ 0 ≤ (i : ℤ) * unit ∧ 0 ≤ (g : ℤ) * unit :=
    ⟨mul_nonneg (by omega) hcol.1.le, mul_nonneg (by omega) hunit.1.le, mul_nonneg (by omega) hunit.1.le⟩
  have hnonneg' : 0 ≤ (g : ℤ) * row * unit :=
    mul_nonneg (mul_nonneg (by omega) (by omega)) hunit.1.le
  rw [InBuffers, srcAddr, dstAddr]
  simp only [toSize, HandleTable.toUint64]
  omega

/-! ### decode -/

/-- In place, the rows come from a copy of the input, and all addresses are computed as `int`. -/
def backSource (m : ProcessMemory) (input output : Bytes) (wide : ℤ) :
    ProcessMemory → ℕ → ℕ → UInt8 := fun m' i k =>
  if input.data = output.data then m (input.data + (toSize (toInt32 (i * wide)) + k))
  else m' (input.data + (toSize (i * wide) + k))

def backTarget (input output : Bytes) (col : ℤ) : ℕ → ℕ := fun i =>
  toSize (output.data + if input.data = output.data then toInt32 (i * col) else i * col)

/-- The loop of `decode`, when there is something to move. -/
theorem decodeRows_eq {row wide : ℤ} {expectedSize : ℕ}
    (hmove : ¬ (input.data = output.data ∧ col = wide))
    (halloc : input.data = output.data → alloc = true) :
    decodeRows m input output row col wide expectedSize alloc =
      let r := copyBack (backSource m input output wide) (backTarget input output col) input.size
        expectedSize col wide (List.range row.toNat) m
      ⟨r.1, ⟨expectedSize, output.data⟩, r.2⟩ := by
  unfold backSource backTarget
  rw [decodeRows]
  by_cases hsame : input.data = output.data
  · rw [if_pos hsame, if_neg fun h => hmove ⟨hsame, h⟩, if_neg (by rw [halloc hsame]; decide)]
    simp only [if_pos hsame]
  · rw [if_neg hsame]
    simp only [if_neg hsame]

/-- Every row is inside both buffers. -/
def RowsInside (size expectedSize : ℕ) (col wide : ℤ) (l : List ℕ) : Prop :=
  ∀ i ∈ l, toSize (i * col + col) ≤ expectedSize ∧ toSize (i * wide + col) ≤ size

/-- The loop stops exactly at a copy that is not inside the buffers. -/
theorem copyBack_ret (source : ProcessMemory → ℕ → ℕ → UInt8) (dst : ℕ → ℕ)
    (size expectedSize : ℕ) (col wide : ℤ) : ∀ (l : List ℕ) (m : ProcessMemory),
    Reports (copyBack source dst size expectedSize col wide l m).2
      (RowsInside size expectedSize col wide l)
  | [], m => Or.inl ⟨rfl, nofun⟩
  | i :: rest, m => by
    rw [copyBack]
    split_ifs with hout
    · refine Or.inr ⟨rfl, fun hall => ?_⟩
      have hi := hall i List.mem_cons_self
      omega
    · refine (copyBack_ret source dst size expectedSize col wide rest _).imp ?_
      rw [RowsInside, RowsInside, List.forall_mem_cons]
      exact ⟨fun h => ⟨by omega, h⟩, fun h => h.2⟩

theorem decodeRows_ret {row wide : ℤ} {expectedSize : ℕ}
    (hmove : ¬ (input.data = output.data ∧ col = wide))
    (halloc : input.data = output.data → alloc = true) :
    Reports (decodeRows m input output row col wide expectedSize alloc).ret
      (RowsInside input.size expectedSize col wide (List.range row.toNat)) := by
  rw [decodeRows_eq hmove halloc]
  exact copyBack_ret ..

/-- `decode` accepts its arguments: there is nothing to decode, or whole rows whose copies all are
    inside the buffers. -/
structure DecodeFits (input output : Bytes) (col unit : ℤ) (alloc : Bool) : Prop where
  colPos : 0 < col
  unitPos : 0 < unit
  aligned : alignedCol col unit ≠ 0
  source : input.data ≠ 0
  whole : input.size ≠ 0 → decodedRest input.size (alignedCol col unit) = 0
  destination : input.size ≠ 0 → output.data ≠ 0
  room : input.size ≠ 0 →
    decodedSize (decodedRows input.size (alignedCol col unit)) col ≤ output.size
  buffer : input.size ≠ 0 → input.data = output.data → col ≠ alignedCol col unit → alloc = true
  copies : input.size ≠ 0 → ¬ (input.data = output.data ∧ col = alignedCol col unit) →
    RowsInside input.size (decodedSize (decodedRows input.size (alignedCol col unit)) col) col
      (alignedCol col unit) (List.range (decodedRows input.size (alignedCol col unit)).toNat)

theorem decode_ret (m : ProcessMemory) (input output : Bytes) (col unit : ℤ) (alloc : Bool) :
    Reports (decode m input output col unit alloc).ret
      (DecodeFits input output col unit alloc) := by
  rw [decode]
  by_cases hsign : col ≤ 0 ∨ unit ≤ 0
  · rw [if_pos hsign]
    exact Or.inr ⟨rfl, fun h => hsign.elim h.colPos.not_ge h.unitPos.not_ge⟩
  rw [if_neg hsign]
  obtain ⟨hcol, hunit⟩ := not_or.mp hsign
  by_cases haligned : alignedCol col unit = 0
  · rw [if_pos haligned]
    exact Or.inr ⟨rfl, fun h => h.aligned haligned⟩
  rw [if_neg haligned]
  by_cases hsource : input.data = 0
  · rw [if_pos hsource]
    exact Or.inr ⟨rfl, fun h => h.source hsource⟩
  rw [if_neg hsource]
  by_cases hempty : input.size = 0
  · rw [if_pos hempty]
    exact Or.inl ⟨rfl, not_le.mp hcol, not_le.mp hunit, haligned, hsource, absurd hempty,
      absurd hempty, absurd hempty, absurd hempty, absurd hempty⟩
  rw [if_neg hempty]
  by_cases hwhole : decodedRest input.size (alignedCol col unit) ≠ 0
  · rw [if_pos hwhole]
    exact Or.inr ⟨rfl, fun h => hwhole (h.whole hempty)⟩
  rw [if_neg hwhole]
  simp only
  by_cases hdest : output.data = 0
  · rw [if_pos hdest]
    exact Or.inr ⟨rfl, fun h => h.destination hempty hdest⟩
  rw [if_neg hdest]
  by_cases hroom : output.size < decodedSize (decodedRows input.size (alignedCol col unit)) col
  · rw [if_pos hroom]
    exact Or.inr ⟨rfl, fun h => (h.room hempty).not_gt hroom⟩
  rw [if_neg hroom]
  by_cases hstay : input.data = output.data ∧ col = alignedCol col unit
  · rw [decodeRows, if_pos hstay.1, if_pos hstay.2]
    exact Or.inl ⟨rfl, not_le.mp hcol, not_le.mp hunit, haligned, hsource,
      fun _ => not_not.mp hwhole, fun _ => hdest, fun _ => not_lt.mp hroom,
      fun _ _ h => absurd hstay.2 h, fun _ => absurd hstay⟩
  by_cases halloc : input.data = output.data → alloc = true
  · refine (decodeRows_ret hstay halloc).imp ⟨fun h => ?_, fun h => h.copies hempty hstay⟩
    exact ⟨not_le.mp hcol, not_le.mp hunit, haligned, hsource, fun _ => not_not.mp hwhole,
      fun _ => hdest, fun _ => not_lt.mp hroom, fun _ hsame _ => halloc hsame, fun _ _ => h⟩
  · obtain ⟨hsame, halloc⟩ := Classical.not_imp.mp halloc
    have hdense : col ≠ alignedCol col unit := fun h => hstay ⟨hsame, h⟩
    rw [decodeRows, if_pos hsame, if_neg hdense, if_pos (by simpa using halloc)]
    exact Or.inr ⟨rfl, fun h => halloc (h.buffer hempty hsame hdense)⟩

/-- In place, rows without padding stay where they are. -/
def decodeStores (m : ProcessMemory) (input output : Bytes) (col unit : ℤ) : List (Store UInt8) :=
  if input.size = 0 ∨ input.data = output.data ∧ col = alignedCol col unit then []
  else copies (backSource m input output (alignedCol col unit)) (backTarget input output col)
    (fun _ => col.toNat) (List.range (decodedRows input.size (alignedCol col unit)).toNat)

def decodeSize (size : ℕ) (col unit : ℤ) : ℕ :=
  if size = 0 then 0 else decodedSize (decodedRows size (alignedCol col unit)) col

theorem decode_eq (h : DecodeFits input output col unit alloc) :
    decode m input output col unit alloc = ⟨replay (decodeStores m input output col unit) m,
      ⟨decodeSize input.size col unit, output.data⟩, 0⟩ := by
  have hcol := h.colPos
  have hunit := h.unitPos
  rw [decode, if_neg (by omega), if_neg h.aligned, if_neg h.source]
  by_cases hempty : input.size = 0
  · rw [if_pos hempty, decodeStores, if_pos (Or.inl hempty), decodeSize, if_pos hempty, replay_nil]
  rw [if_neg hempty, if_neg (not_not.mpr (h.whole hempty)), decodeSize, if_neg hempty, decodeStores]
  simp only [if_neg (h.destination hempty), if_neg (h.room hempty).not_gt, hempty, false_or]
  by_cases hstay : input.data = output.data ∧ col = alignedCol col unit
  · rw [if_pos hstay, decodeRows, if_pos hstay.1, if_pos hstay.2, replay_nil]
  · rw [if_neg hstay, decodeRows_eq hstay fun hsame => h.buffer hempty hsame fun hdense =>
      hstay ⟨hsame, hdense⟩, copyBack_eq (h.copies hempty hstay)]

end DxRt.NpuFormatHandler
