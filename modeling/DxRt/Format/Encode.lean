import DxRt.Model.TaskData

/-! lib/npu_format_handler.cpp: the encoders of the NPU input formats.

    An encoder pads the rows of an input to a multiple of a unit, or groups the columns by units.
    It returns -1 when a size or a pointer does not fit, and 0 otherwise. Numbers of rows and columns
    are `int` and wrap around, sizes are 32-bit fields, and addresses are computed in 64 bits. Source
    and destination may be the same buffer; then the source is copied to a temporary one first, and
    `alloc` says whether there is memory for that. -/

namespace DxRt

/-- The bytes of the process, by address. -/
abbrev ProcessMemory := ℕ → UInt8

namespace ProcessMemory

/-- `n` bytes are written from `dst` on. -/
def copyIn (m : ProcessMemory) (dst n : ℕ) (bytes : ℕ → UInt8) : ProcessMemory :=
  fun a => if dst ≤ a ∧ a < dst + n then bytes (a - dst) else m a

def memcpy (m : ProcessMemory) (dst src n : ℕ) : ProcessMemory :=
  m.copyIn dst n fun k => m (src + k)

def memset (m : ProcessMemory) (dst : ℕ) (value : UInt8) (n : ℕ) : ProcessMemory :=
  m.copyIn dst n fun _ => value

end ProcessMemory

namespace NpuFormatHandler

/-- A buffer: its size as `uint32_t` and its address, 0 for none. -/
structure Bytes where
  size : ℕ
  data : ℕ
  deriving DecidableEq

/-- The value of an `int` after an operation. -/
def toInt32 (x : ℤ) : ℤ := x.bmod (2 ^ 32)

/-- An operation on `size_t`. -/
def toSize (x : ℤ) : ℕ := HandleTable.toUint64 x

def cdiv (a b : ℤ) : ℤ := if b = 0 then 0 else (toInt32 (a + toInt32 (b - 1))).tdiv b

/-- `cdiv(col, unit) * unit`. -/
def alignedCol (col unit : ℤ) : ℤ := toInt32 (cdiv col unit * unit)

/-- The rows of an input: `size / col`. -/
def rows (size : ℕ) (col : ℤ) : ℤ := toInt32 (size / col.toNat : ℕ)

/-- `(uint32_t)row * aligned_col`. -/
def expectedSize (size : ℕ) (col unit : ℤ) : ℕ :=
  toUint32 (rows size col) * toUint32 (alignedCol col unit) % 2 ^ 32

/-- What an encoder leaves behind: the memory, the destination with its size, and the code. -/
structure Encoded where
  memory : ProcessMemory
  output : Bytes
  ret : ℤ

/-! ### Padded rows -/

/-- The loop over the rows; `source` reads the input, or the copy of it. -/
def copyRows (source : ProcessMemory → ℕ → UInt8) (data : ℕ) (row col alignedCol : ℤ)
    (m : ProcessMemory) : ProcessMemory :=
  (List.range row.toNat).foldl (fun m i =>
    m.copyIn (toSize (data + i * alignedCol)) col.toNat fun k => source m (toSize (i * col) + k)) m

def encode (m : ProcessMemory) (input output : Bytes) (col unit : ℤ) (alloc : Bool) : Encoded :=
  if col ≤ 0 ∨ unit ≤ 0 then ⟨m, output, -1⟩
  else if input.size % col.toNat ≠ 0 then ⟨m, output, -1⟩
  else if input.data = 0 then ⟨m, output, -1⟩
  else
    let row := rows input.size col
    let alignedCol := alignedCol col unit
    let expectedSize := expectedSize input.size col unit
    if output.data = 0 then ⟨m, output, -1⟩
    else if output.size < expectedSize then ⟨m, output, -1⟩
    else if input.data = output.data then
      if col = alignedCol then ⟨m, ⟨expectedSize, output.data⟩, 0⟩
      else if alloc = false then ⟨m, ⟨expectedSize, output.data⟩, -1⟩
      else
        let temp := fun k => m (input.data + k)
        ⟨copyRows (fun _ => temp) output.data row col alignedCol
          (m.memset output.data 0 expectedSize), ⟨expectedSize, output.data⟩, 0⟩
    else
      ⟨copyRows (fun m k => m (input.data + k)) output.data row col alignedCol
        (m.memset output.data 0 expectedSize), ⟨expectedSize, output.data⟩, 0⟩

/-- The whole input is one row. -/
def encodePreformatter (m : ProcessMemory) (input output : Bytes) (alignUnit : ℤ) (alloc : Bool) :
    Encoded :=
  let col := toInt32 input.size
  if col = 0 ∧ input.data = 0 then ⟨m, { output with size := 0 }, 0⟩
  else if col ≤ 0 then ⟨m, output, -1⟩
  else encode m input output col alignUnit alloc

def encodePreim2col (m : ProcessMemory) (input output : Bytes) (width channel alignUnit : ℤ)
    (alloc : Bool) : Encoded :=
  if width ≤ 0 ∨ channel ≤ 0 then ⟨m, output, -1⟩
  else encode m input output (toInt32 (width * channel)) alignUnit alloc

/-! ### Grouped columns -/

/-- The part of a row that goes into group `g`. -/
def copySize (col unit : ℤ) (g : ℕ) : ℤ :=
  let remainingCols := toInt32 (col - toInt32 (g * unit))
  if remainingCols < unit then remainingCols else unit

def srcAddr (col unit : ℤ) (g i : ℕ) : ℕ := toSize (i * col + g * unit)

def dstAddr (row unit : ℤ) (g i : ℕ) : ℕ := toSize (g * row * unit + i * unit)

/-- The copy of row `i` into group `g` is inside both buffers. -/
def InBuffers (size expectedSize : ℕ) (row col unit : ℤ) (g i : ℕ) : Prop :=
  toSize (srcAddr col unit g i + copySize col unit g) ≤ size ∧
    toSize (dstAddr row unit g i + copySize col unit g) ≤ expectedSize

instance (size expectedSize : ℕ) (row col unit : ℤ) (g i : ℕ) :
    Decidable (InBuffers size expectedSize row col unit g i) :=
  inferInstanceAs (Decidable (_ ∧ _))

/-- The loops over groups and rows; they stop at a copy that is not inside. -/
def copyGroups (source : ProcessMemory → ℕ → UInt8) (size expectedSize data : ℕ)
    (row col unit : ℤ) : List (ℕ × ℕ) → ProcessMemory → ProcessMemory × ℤ
  | [], m => (m, 0)
  | (g, i) :: rest, m =>
    if copySize col unit g ≤ 0 then copyGroups source size expectedSize data row col unit rest m
    else if ¬ InBuffers size expectedSize row col unit g i then (m, -1)
    else copyGroups source size expectedSize data row col unit rest
      (m.copyIn (data + dstAddr row unit g i) (copySize col unit g).toNat fun k =>
        source m (srcAddr col unit g i + k))

/-- Groups and rows, in the order of the loops. -/
def groupRows (col unit row : ℤ) : List (ℕ × ℕ) :=
  List.range (cdiv col unit).toNat ×ˢ List.range row.toNat

/-- The destination is cleared before the source is copied, also when they are one buffer; it is not
    checked whether it is large enough. -/
def encodeFormatted (m : ProcessMemory) (input output : Bytes) (channel alignUnit : ℤ)
    (alloc : Bool) : Encoded :=
  let col := channel
  if col ≤ 0 ∨ alignUnit ≤ 0 then ⟨m, output, -1⟩
  else if input.data = 0 then ⟨m, output, -1⟩
  else if input.size = 0 then ⟨m, { output with size := 0 }, 0⟩
  else if input.size % col.toNat ≠ 0 then ⟨m, output, -1⟩
  else
    let row := rows input.size col
    let expectedSize := expectedSize input.size col alignUnit
    if output.data = 0 then ⟨m, output, -1⟩
    else
      let m := m.memset output.data 0 expectedSize
      let output := ⟨expectedSize, output.data⟩
      if input.data = output.data then
        if alloc = false then ⟨m, output, -1⟩
        else
          let temp := fun k => m (input.data + k)
          let (m, ret) := copyGroups (fun _ => temp) input.size expectedSize output.data row col
            alignUnit (groupRows col alignUnit row) m
          ⟨m, output, ret⟩
      else
        let (m, ret) := copyGroups (fun m k => m (input.data + k)) input.size expectedSize
          output.data row col alignUnit (groupRows col alignUnit row) m
        ⟨m, output, ret⟩

/-! ### When an encoder reports an error -/

/-- The code is 0 for what is accepted, and -1 otherwise. -/
def Reports (ret : ℤ) (accepted : Prop) : Prop := ret = 0 ∧ accepted ∨ ret = -1 ∧ ¬ accepted

theorem Reports.imp {ret : ℤ} {accepted accepted' : Prop} (h : Reports ret accepted)
    (hiff : accepted ↔ accepted') : Reports ret accepted' :=
  Or.imp (And.imp_right hiff.mp) (And.imp_right (mt hiff.mpr)) h

theorem Reports.accepts {ret : ℤ} {accepted : Prop} (h : Reports ret accepted) (ha : accepted) :
    ret = 0 := by
  rcases h with ⟨hret, -⟩ | ⟨-, hnot⟩
  · exact hret
  · exact absurd ha hnot

theorem Reports.accepted {ret : ℤ} {accepted : Prop} (h : Reports ret accepted) (hret : ret = 0) :
    accepted := by
  rcases h with ⟨-, ha⟩ | ⟨hneg, -⟩
  · exact ha
  · rw [hret] at hneg
    cases hneg

/-- `encode` accepts its arguments. -/
structure Fits (input output : Bytes) (col unit : ℤ) (alloc : Bool) : Prop where
  colPos : 0 < col
  unitPos : 0 < unit
  whole : input.size % col.toNat = 0
  source : input.data ≠ 0
  destination : output.data ≠ 0
  room : expectedSize input.size col unit ≤ output.size
  buffer : input.data = output.data → col ≠ alignedCol col unit → alloc = true

theorem encode_ret (m : ProcessMemory) (input output : Bytes) (col unit : ℤ) (alloc : Bool) :
    Reports (encode m input output col unit alloc).ret (Fits input output col unit alloc) := by
  rw [encode]
  by_cases hsign : col ≤ 0 ∨ unit ≤ 0
  · rw [if_pos hsign]
    exact Or.inr ⟨rfl, fun h => hsign.elim h.colPos.not_ge h.unitPos.not_ge⟩
  rw [if_neg hsign]
  by_cases hwhole : input.size % col.toNat ≠ 0
  · rw [if_pos hwhole]
    exact Or.inr ⟨rfl, fun h => hwhole h.whole⟩
  rw [if_neg hwhole]
  by_cases hsource : input.data = 0
  · rw [if_pos hsource]
    exact Or.inr ⟨rfl, fun h => h.source hsource⟩
  rw [if_neg hsource]
  by_cases hdest : output.data = 0
  · simp only [if_pos hdest]
    exact Or.inr ⟨rfl, fun h => h.destination hdest⟩
  by_cases hroom : output.size < expectedSize input.size col unit
  · simp only [if_neg hdest, if_pos hroom]
    exact Or.inr ⟨rfl, fun h => h.room.not_gt hroom⟩
  simp only [if_neg hdest, if_neg hroom]
  obtain ⟨hcol, hunit⟩ := not_or.mp hsign
  have hfits : (input.data = output.data → col ≠ alignedCol col unit → alloc = true) →
      Fits input output col unit alloc := fun hbuffer =>
    ⟨not_le.mp hcol, not_le.mp hunit, not_not.mp hwhole, hsource, hdest, not_lt.mp hroom, hbuffer⟩
  by_cases hsame : input.data = output.data
  · simp only [if_pos hsame]
    by_cases hdense : col = alignedCol col unit
    · rw [if_pos hdense]
      exact Or.inl ⟨rfl, hfits fun _ hne => absurd hdense hne⟩
    rw [if_neg hdense]
    by_cases halloc : alloc = false
    · rw [if_pos halloc]
      refine Or.inr ⟨rfl, fun h => ?_⟩
      rw [h.buffer hsame hdense] at halloc
      cases halloc
    · rw [if_neg halloc]
      exact Or.inl ⟨rfl, hfits fun _ _ => by simpa using halloc⟩
  · simp only [if_neg hsame]
    exact Or.inl ⟨rfl, hfits fun heq => absurd heq hsame⟩

/-- `encode_preformatter` accepts its arguments: there is no input at all, or one row. -/
structure PreformatterFits (input output : Bytes) (alignUnit : ℤ) (alloc : Bool) : Prop where
  fits : toInt32 input.size ≠ 0 ∨ input.data ≠ 0 →
    Fits input output (toInt32 input.size) alignUnit alloc

theorem encodePreformatter_ret (m : ProcessMemory) (input output : Bytes) (alignUnit : ℤ)
    (alloc : Bool) :
    Reports (encodePreformatter m input output alignUnit alloc).ret
      (PreformatterFits input output alignUnit alloc) := by
  rw [encodePreformatter]
  by_cases hempty : toInt32 input.size = 0 ∧ input.data = 0
  · simp only [if_pos hempty]
    exact Or.inl ⟨rfl, ⟨fun hne => (hne.elim (· hempty.1) (· hempty.2)).elim⟩⟩
  have hne : toInt32 input.size ≠ 0 ∨ input.data ≠ 0 := not_and_or.mp hempty
  by_cases hcol : toInt32 input.size ≤ 0
  · simp only [if_neg hempty, if_pos hcol]
    exact Or.inr ⟨rfl, fun h => (h.fits hne).colPos.not_ge hcol⟩
  simp only [if_neg hempty, if_neg hcol]
  exact (encode_ret m input output _ alignUnit alloc).imp
    ⟨fun h => ⟨fun _ => h⟩, fun h => h.fits hne⟩

/-- `encode_preim2col` accepts its arguments. -/
structure Preim2colFits (input output : Bytes) (width channel alignUnit : ℤ) (alloc : Bool) :
    Prop where
  widthPos : 0 < width
  channelPos : 0 < channel
  fits : Fits input output (toInt32 (width * channel)) alignUnit alloc

theorem encodePreim2col_ret (m : ProcessMemory) (input output : Bytes)
    (width channel alignUnit : ℤ) (alloc : Bool) :
    Reports (encodePreim2col m input output width channel alignUnit alloc).ret
      (Preim2colFits input output width channel alignUnit alloc) := by
  rw [encodePreim2col]
  split_ifs with hsign
  · exact Or.inr ⟨rfl, fun h => hsign.elim h.widthPos.not_ge h.channelPos.not_ge⟩
  · obtain ⟨hwidth, hchannel⟩ := not_or.mp hsign
    exact (encode_ret m input output _ alignUnit alloc).imp
      ⟨fun h => ⟨not_le.mp hwidth, not_le.mp hchannel, h⟩, fun h => h.fits⟩

/-- `encode_formatted` accepts its arguments: there is nothing to encode, or whole rows whose copies
    all are inside the buffers. -/
structure FormattedFits (input output : Bytes) (channel alignUnit : ℤ) (alloc : Bool) : Prop where
  channelPos : 0 < channel
  unitPos : 0 < alignUnit
  source : input.data ≠ 0
  whole : input.size % channel.toNat = 0
  destination : input.size ≠ 0 → output.data ≠ 0
  buffer : input.size ≠ 0 → input.data = output.data → alloc = true
  copies : input.size ≠ 0 → ∀ p ∈ groupRows channel alignUnit (rows input.size channel),
    0 < copySize channel alignUnit p.1 →
      InBuffers input.size (expectedSize input.size channel alignUnit) (rows input.size channel)
        channel alignUnit p.1 p.2

/-- The loops stop exactly at a copy that is not inside the buffers. -/
theorem copyGroups_ret (source : ProcessMemory → ℕ → UInt8) (size expectedSize data : ℕ)
    (row col unit : ℤ) : ∀ (pairs : List (ℕ × ℕ)) (m : ProcessMemory),
    (copyGroups source size expectedSize data row col unit pairs m).2 =
      if ∀ p ∈ pairs, 0 < copySize col unit p.1 →
        InBuffers size expectedSize row col unit p.1 p.2 then 0 else -1
  | [], m => by simp [copyGroups]
  | (g, i) :: rest, m => by
    simp only [copyGroups, List.forall_mem_cons]
    by_cases hnone : copySize col unit g ≤ 0
    · rw [if_pos hnone, copyGroups_ret]
      simp only [hnone.not_gt, false_implies, true_and]
    rw [if_neg hnone]
    by_cases hinside : InBuffers size expectedSize row col unit g i
    · rw [if_neg (not_not.mpr hinside), copyGroups_ret]
      simp only [hinside, implies_true, true_and]
    · rw [if_pos hinside]
      simp only [not_le.mp hnone, hinside, true_implies, false_and, if_false]

theorem encodeFormatted_ret (m : ProcessMemory) (input output : Bytes) (channel alignUnit : ℤ)
    (alloc : Bool) :
    Reports (encodeFormatted m input output channel alignUnit alloc).ret
      (FormattedFits input output channel alignUnit alloc) := by
  simp only [encodeFormatted]
  by_cases hsign : channel ≤ 0 ∨ alignUnit ≤ 0
  · rw [if_pos hsign]
    exact Or.inr ⟨rfl, fun h => hsign.elim h.channelPos.not_ge h.unitPos.not_ge⟩
  rw [if_neg hsign]
  obtain ⟨hchannel, hunit⟩ := not_or.mp hsign
  by_cases hsource : input.data = 0
  · rw [if_pos hsource]
    exact Or.inr ⟨rfl, fun h => h.source hsource⟩
  rw [if_neg hsource]
  by_cases hsize : input.size = 0
  · rw [if_pos hsize]
    exact Or.inl ⟨rfl, not_le.mp hchannel, not_le.mp hunit, hsource, by rw [hsize, Nat.zero_mod],
      absurd hsize, absurd hsize, absurd hsize⟩
  rw [if_neg hsize]
  by_cases hwhole : input.size % channel.toNat ≠ 0
  · rw [if_pos hwhole]
    exact Or.inr ⟨rfl, fun h => hwhole h.whole⟩
  rw [if_neg hwhole]
  by_cases hdest : output.data = 0
  · rw [if_pos hdest]
    exact Or.inr ⟨rfl, fun h => h.destination hsize hdest⟩
  rw [if_neg hdest]
  have hfits : (input.data = output.data → alloc = true) →
      (∀ p ∈ groupRows channel alignUnit (rows input.size channel),
        0 < copySize channel alignUnit p.1 →
          InBuffers input.size (expectedSize input.size channel alignUnit)
            (rows input.size channel) channel alignUnit p.1 p.2) →
      FormattedFits input output channel alignUnit alloc := fun hbuffer hcopies =>
    ⟨not_le.mp hchannel, not_le.mp hunit, hsource, not_not.mp hwhole, fun _ => hdest,
      fun _ => hbuffer, fun _ => hcopies⟩
  by_cases hsame : input.data = output.data
  · rw [if_pos hsame]
    by_cases halloc : alloc = false
    · rw [if_pos halloc]
      refine Or.inr ⟨rfl, fun h => ?_⟩
      rw [h.buffer hsize hsame] at halloc
      cases halloc
    · rw [if_neg halloc, copyGroups_ret]
      split_ifs with hcopies
      · exact Or.inl ⟨rfl, hfits (fun _ => by simpa using halloc) hcopies⟩
      · exact Or.inr ⟨rfl, fun h => hcopies (h.copies hsize)⟩
  · rw [if_neg hsame, copyGroups_ret]
    split_ifs with hcopies
    · exact Or.inl ⟨rfl, hfits (fun heq => absurd heq hsame) hcopies⟩
    · exact Or.inr ⟨rfl, fun h => hcopies (h.copies hsize)⟩

end NpuFormatHandler
end DxRt
