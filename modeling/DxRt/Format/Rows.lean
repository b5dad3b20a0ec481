import DxRt.Format.Sizes

/-! lib/npu_format_handler.cpp: padded rows and back.

    `encode` and `decode` are inverse to each other, and both do the same whether source and
    destination are one buffer or two. -/

namespace DxRt.NpuFormatHandler
open Blocks Stores

/-! ### decode -/

/-- The loop over the rows; it stops at a copy that is not inside the buffers. `dst` is the address
    of a row of the output. -/
def copyBack (source : ProcessMemory → ℕ → ℕ → UInt8) (dst : ℕ → ℕ) (size expectedSize : ℕ)
    (col alignedCol : ℤ) : List ℕ → ProcessMemory → ProcessMemory × ℤ
  | [], m => (m, 0)
  | i :: rest, m =>
    if expectedSize < toSize (i * col + col) ∨ size < toSize (i * alignedCol + col) then (m, -1)
    else copyBack source dst size expectedSize col alignedCol rest
      (m.copyIn (dst i) col.toNat (source m i))

/-- The rows of an encoded input: `size / aligned_col`, unsigned. -/
def decodedRows (size : ℕ) (alignedCol : ℤ) : ℤ := toInt32 (size / toUint32 alignedCol : ℕ)

/-- What is left after the last row: `size % aligned_col`, unsigned. -/
def decodedRest (size : ℕ) (alignedCol : ℤ) : ℕ := size % toUint32 alignedCol

/-- `(uint32_t)row * col`. -/
def decodedSize (row col : ℤ) : ℕ := toUint32 row * toUint32 col % 2 ^ 32

/-- The rows go to the output. In place they come from a copy of the input, that is from the memory
    as it was, and their addresses are computed as `int`. -/
def decodeRows (m : ProcessMemory) (input output : Bytes) (row col alignedCol : ℤ)
    (expectedSize : ℕ) (alloc : Bool) : Encoded :=
  if input.data = output.data then
    if col = alignedCol then ⟨m, ⟨expectedSize, output.data⟩, 0⟩
    else if alloc = false then ⟨m, ⟨expectedSize, output.data⟩, -1⟩
    else
      let (m, ret) := copyBack
        (fun _ i k => m (input.data + (toSize (toInt32 (i * alignedCol)) + k)))
        (fun i => toSize (output.data + toInt32 (i * col))) input.size expectedSize col
        alignedCol (List.range row.toNat) m
      ⟨m, ⟨expectedSize, output.data⟩, ret⟩
  else
    let (m, ret) := copyBack (fun m i k => m (input.data + (toSize (i * alignedCol) + k)))
      (fun i => toSize (output.data + i * col)) input.size expectedSize col alignedCol
      (List.range row.toNat) m
    ⟨m, ⟨expectedSize, output.data⟩, ret⟩

def decode (m : ProcessMemory) (input output : Bytes) (col unit : ℤ) (alloc : Bool) : Encoded :=
  if col ≤ 0 ∨ unit ≤ 0 then ⟨m, output, -1⟩
  else if alignedCol col unit = 0 then ⟨m, output, -1⟩
  else if input.data = 0 then ⟨m, output, -1⟩
  else if input.size = 0 then ⟨m, { output with size := 0 }, 0⟩
  else if decodedRest input.size (alignedCol col unit) ≠ 0 then ⟨m, output, -1⟩
  else
    let row := decodedRows input.size (alignedCol col unit)
    let expectedSize := decodedSize row col
    if output.data = 0 then ⟨m, output, -1⟩
    else if output.size < expectedSize then ⟨m, output, -1⟩
    else decodeRows m input output row col (alignedCol col unit) expectedSize alloc

/-- Columns and units of a tensor of floats count elements. -/
def decodeAligned (m : ProcessMemory) (input output : Bytes) (channel : ℤ) (dtype : DataType)
    (alignUnit : ℤ) (alloc : Bool) : Encoded :=
  if dtype = .float then
    decode m input output (toInt32 (channel * 4)) (toInt32 (alignUnit * 4)) alloc
  else decode m input output channel alignUnit alloc

/-! ### encode -/

section
variable {m : ProcessMemory} {input output : Bytes} {size col unit : ℕ} {alloc : Bool}

theorem copyRows_eq (source : ProcessMemory → ℕ → UInt8) (data : ℕ) (row col wide : ℤ) :
    copyRows source data row col wide m =
      replay (copies (fun m (i : ℕ) k => source m (toSize (i * col) + k))
        (fun i => toSize (data + i * wide)) (fun _ => col.toNat) (List.range row.toNat)) m := by
  rw [copyRows, ← foldl_copyIn]
  simp only [List.bind_eq_flatMap, List.pure_def, List.foldl_flatMap, List.foldl_cons, List.foldl_nil]

/-- The rows after the destination has been cleared. -/
theorem copyRows_writes {source : ProcessMemory → ℕ → UInt8} {x : ℕ → UInt8} {data row wide : ℕ}
    (hcol : 0 < col) (hle : col ≤ wide) (hspace : data + row * wide ≤ 2 ^ 64)
    (hreads : Reads source m data (row * wide) (row * col) x) :
    Writes m (copyRows source data row col wide (m.memset data 0 (row * wide))) data (row * wide)
      (pad col wide x) := by
  have hrows : row * col ≤ row * wide := Nat.mul_le_mul_left _ hle
  have haddr : ∀ i < row, toSize (data + i * wide) = data + i * wide := fun i hi => by
    have hplace : i * wide + 0 < row * wide := place_lt hi (by omega)
    rw [← Nat.cast_mul, ← Nat.cast_add, toSize_natCast (by omega)]
  have hread : ∀ i < row, toSize (i * col) = i * col := fun i hi => by
    have hplace : i * col + 0 < row * col := place_lt hi hcol
    rw [← Nat.cast_mul, toSize_natCast (by omega)]
  rw [copyRows_eq, Int.toNat_natCast, Int.toNat_natCast]
  have hclear : Framed m data (row * wide) (m.memset data 0 (row * wide)) :=
    (Framed.refl m data _).run (s := clear data (row * wide)) fun a ha => ha
  refine writes_of_settled ?_ ?_ hclear fun p hp => ?_
  · intro s hs a ⟨ha, ha'⟩
    obtain ⟨i, hi, rfl⟩ := List.mem_map.mp hs
    have hi := List.mem_range.mp hi
    simp only [haddr i hi] at ha ha'
    have hplace : i * wide + (col - 1) < row * wide := place_lt hi (by omega)
    omega
  · intro s hs m' hm' a ⟨ha, ha'⟩
    obtain ⟨i, hi, rfl⟩ := List.mem_map.mp hs
    have hi := List.mem_range.mp hi
    simp only [haddr i hi] at ha ha' ⊢
    have hplace : i * col + (a - (data + i * wide)) < row * col := place_lt hi (by omega)
    rw [hread i hi, hreads m' hm' _ hplace]
    have hoffset : a - data = i * wide + (a - (data + i * wide)) := by omega
    rw [hoffset, pad_at x (by omega), if_pos (by omega)]
  · by_cases hdata : p % wide < col
    · have hrow : p / wide < row := Nat.div_lt_of_lt_mul (by rwa [Nat.mul_comm])
      refine Or.inl ⟨_, List.mem_map_of_mem (List.mem_range.mpr hrow), ?_⟩
      have hp' := Nat.div_add_mod' p wide
      simp only [Store.Covers, haddr _ hrow]
      omega
    · refine Or.inr ?_
      rw [pad, if_neg hdata]
      exact if_pos ⟨by omega, by omega⟩

/-- The sizes that `encode` can do with: whole rows, and no overflow. -/
structure RowSizes (size col unit : ℕ) : Prop where
  colPos : 1 ≤ col
  unitPos : 1 ≤ unit
  whole : col ∣ size
  width : col + unit ≤ 2 ^ 31
  rows : size / col < 2 ^ 31
  total : size / col * alignUp col unit < 2 ^ 32

/-- `encode` pads the rows, in place or not. -/
theorem encode_writes (h : RowSizes input.size col unit) (hbuf : Buffers input output alloc)
    (hroom : input.size / col * alignUp col unit ≤ output.size) :
    ∃ m', encode m input output col unit alloc =
        ⟨m', ⟨input.size / col * alignUp col unit, output.data⟩, 0⟩ ∧
      Writes m m' output.data (input.size / col * alignUp col unit)
        (pad col (alignUp col unit) (bytesAt m input)) := by
  have hcol := h.colPos
  have hspace := hbuf.space
  have hle : col ≤ alignUp col unit := le_alignUp col h.unitPos
  have hsize : input.size / col * col = input.size := Nat.div_mul_cancel h.whole
  have haligned := alignedCol_eq h.colPos h.unitPos h.width
  have hexpected := expectedSize_eq h.colPos h.unitPos h.width h.rows h.total
  have hwrites : ∀ {source : ProcessMemory → ℕ → UInt8},
      Reads source m output.data (input.size / col * alignUp col unit) input.size
        (bytesAt m input) →
      Writes m (copyRows source output.data (input.size / col : ℕ) col (alignUp col unit)
        (m.memset output.data 0 (input.size / col * alignUp col unit))) output.data
        (input.size / col * alignUp col unit) (pad col (alignUp col unit) (bytesAt m input)) :=
    fun hreads => copyRows_writes hcol hle (by omega) (by rwa [hsize])
  rw [encode, if_neg (by have := h.unitPos; omega), Int.toNat_natCast,
    if_neg (not_not.mpr (Nat.mod_eq_zero_of_dvd h.whole)), if_neg hbuf.source]
  simp only [haligned, hexpected, rows_eq h.rows, if_neg hbuf.destination,
    if_neg (not_lt.mpr hroom)]
  by_cases hsame : input.data = output.data
  · rw [if_pos hsame]
    by_cases hdense : col = alignUp col unit
    · rw [if_pos (by exact_mod_cast hdense)]
      refine ⟨m, rfl, fun p hp => ?_, Framed.refl m _ _⟩
      rw [← hdense, pad_self _ hcol, bytesAt, hsame]
    · rw [if_neg (by exact_mod_cast hdense), if_neg (by rw [hbuf.memory hsame]; decide)]
      exact ⟨_, rfl, hwrites (reads_copy m _ _ _ _)⟩
  · rw [if_neg hsame]
    refine ⟨_, rfl, hwrites (reads_apart m ?_)⟩
    have hapart := hbuf.apart hsame
    simp only [Apart] at hapart ⊢
    omega

/-! ### decode -/

/-- While every row is inside, the loop does not stop. -/
theorem copyBack_eq {source : ProcessMemory → ℕ → ℕ → UInt8} {dst : ℕ → ℕ}
    {expectedSize : ℕ} {col alignedCol : ℤ} : ∀ {l : List ℕ} {m : ProcessMemory},
    (∀ i ∈ l, toSize (i * col + col) ≤ expectedSize ∧ toSize (i * alignedCol + col) ≤ size) →
    copyBack source dst size expectedSize col alignedCol l m =
      (replay (copies source dst (fun _ => col.toNat) l) m, 0)
  | [], m, _ => rfl
  | i :: l, m, h => by
    obtain ⟨⟨hi, hi'⟩, hl⟩ := List.forall_mem_cons.mp h
    rw [copyBack, if_neg (by omega), copyBack_eq hl]
    rfl

/-- The loop over all rows, when the output has room for them. -/
theorem copyBack_writes (source : ProcessMemory → ℕ → ℕ → UInt8) {dst : ℕ → ℕ} {y : ℕ → UInt8}
    {data row wide : ℕ} (hcol : 0 < col) (hle : col ≤ wide) (hsize : row * wide ≤ size)
    (hspace : row * wide < 2 ^ 32) (hdst : ∀ i < row, dst i = data + i * col)
    (hreads : ∀ i < row, ∀ m', Framed m data (row * col) m' → ∀ k < col,
      source m' i k = y (i * wide + k)) :
    ∃ m', copyBack source dst size (row * col) col wide (List.range row) m = (m', 0) ∧
      Writes m m' data (row * col) (unpad col wide y) := by
  have hrows : row * col ≤ row * wide := Nat.mul_le_mul_left _ hle
  have hend : ∀ i < row, i * col + col ≤ row * col := fun i hi => by
    have hplace : i * col + (col - 1) < row * col := place_lt hi (by omega)
    omega
  have hend' : ∀ i < row, i * wide + col ≤ row * wide := fun i hi => by
    have hplace : i * wide + (col - 1) < row * wide := place_lt hi (by omega)
    omega
  refine ⟨_, copyBack_eq fun i hi => ?_, writes_of_settled ?_ ?_ (Framed.refl m _ _) fun p hp => ?_⟩
  · have hi := List.mem_range.mp hi
    have hcol' := hend i hi
    have hwide' := hend' i hi
    rw [← Nat.cast_mul, ← Nat.cast_add, toSize_natCast (by omega), ← Nat.cast_mul, ← Nat.cast_add,
      toSize_natCast (by omega)]
    exact ⟨hcol', by omega⟩
  · intro s hs a ⟨ha, ha'⟩
    obtain ⟨i, hi, rfl⟩ := List.mem_map.mp hs
    have hi := List.mem_range.mp hi
    simp only [hdst i hi, Int.toNat_natCast] at ha ha'
    have hcol' := hend i hi
    omega
  · intro s hs m' hm' a ⟨ha, ha'⟩
    obtain ⟨i, hi, rfl⟩ := List.mem_map.mp hs
    have hi := List.mem_range.mp hi
    simp only [hdst i hi, Int.toNat_natCast] at ha ha' ⊢
    have hoffset : a - data = i * col + (a - (data + i * col)) := by omega
    rw [hreads i hi m' hm' _ (by omega), hoffset, unpad_at y (by omega)]
  · have hrow : p / col < row := Nat.div_lt_of_lt_mul (by rwa [Nat.mul_comm])
    refine Or.inl ⟨_, List.mem_map_of_mem (List.mem_range.mpr hrow), ?_⟩
    have hp' := Nat.div_add_mod' p col
    have hlt := Nat.mod_lt p hcol
    simp only [Store.Covers, hdst _ hrow, Int.toNat_natCast]
    omega

/-- The sizes that `decode` can do with; in place, the addresses are `int`. -/
structure PaddedSizes (size col unit : ℕ) : Prop where
  colPos : 1 ≤ col
  unitPos : 1 ≤ unit
  width : col + unit ≤ 2 ^ 31
  whole : alignUp col unit ∣ size
  rows : size / alignUp col unit < 2 ^ 31
  total : size < 2 ^ 32

/-- In place the rows are read from a copy of the input. -/
theorem decodeRows_writes_same {row wide : ℕ} (hbuf : Buffers input output alloc) (hcol : 0 < col)
    (hle : col ≤ wide) (hsize : row * wide = input.size) (hroom : row * col ≤ output.size)
    (hsame : input.data = output.data) (hplace : input.size < 2 ^ 31) :
    ∃ m', decodeRows m input output row col wide (row * col) alloc =
        ⟨m', ⟨row * col, output.data⟩, 0⟩ ∧
      Writes m m' output.data (row * col) (unpad col wide (bytesAt m input)) := by
  have hspace := hbuf.space
  rw [decodeRows, if_pos hsame]
  by_cases hdense : col = wide
  · rw [if_pos (by exact_mod_cast hdense)]
    refine ⟨m, rfl, fun p hp => ?_, Framed.refl m _ _⟩
    rw [← hdense, unpad_self, bytesAt, hsame]
  · rw [if_neg (by exact_mod_cast hdense), if_neg (by rw [hbuf.memory hsame]; decide)]
    have hint : ∀ {i n : ℕ}, i < row → n ≤ wide → toInt32 ((i : ℤ) * n) = (i * n : ℕ) := by
      intro i n hi hn
      have hplace' : i * wide + 0 < row * wide := place_lt hi (by omega)
      have hin : i * n ≤ i * wide := Nat.mul_le_mul_left _ hn
      rw [← Nat.cast_mul, toInt32_natCast (by omega)]
    have hdst : ∀ i < row, toSize (output.data + toInt32 ((i : ℤ) * col)) =
        output.data + i * col := fun i hi => by
      have hplace' : i * col + 0 < row * col := place_lt hi hcol
      rw [hint hi hle, ← Nat.cast_add, toSize_natCast (by omega)]
    have hread : ∀ i < row, toSize (toInt32 ((i : ℤ) * wide)) = i * wide := fun i hi => by
      have hplace' : i * wide + 0 < row * wide := place_lt hi (by omega)
      rw [hint hi le_rfl, toSize_natCast (by omega)]
    obtain ⟨m', hrun, hwrites⟩ := copyBack_writes (m := m) (y := bytesAt m input)
      (fun _ i k => m (input.data + (toSize (toInt32 ((i : ℤ) * wide)) + k)))
      hcol hle hsize.le (by omega) hdst fun i hi m' _ k _ => by rw [hread i hi, bytesAt]
    rw [Int.toNat_natCast, hrun]
    exact ⟨m', rfl, hwrites⟩

theorem decodeRows_writes_apart {row wide : ℕ} (hbuf : Buffers input output alloc) (hcol : 0 < col)
    (hle : col ≤ wide) (hsize : row * wide = input.size) (htotal : input.size < 2 ^ 32)
    (hroom : row * col ≤ output.size) (hsame : input.data ≠ output.data) :
    ∃ m', decodeRows m input output row col wide (row * col) alloc =
        ⟨m', ⟨row * col, output.data⟩, 0⟩ ∧
      Writes m m' output.data (row * col) (unpad col wide (bytesAt m input)) := by
  have hspace := hbuf.space
  have hapart := hbuf.apart hsame
  rw [Apart] at hapart
  have hproduct : row * col ≤ row * wide := Nat.mul_le_mul_left _ hle
  rw [decodeRows, if_neg hsame]
  have hdst : ∀ i < row, toSize (output.data + (i : ℤ) * col) = output.data + i * col :=
    fun i hi => by
      have hplace : i * col + 0 < row * col := place_lt hi hcol
      rw [← Nat.cast_mul, ← Nat.cast_add, toSize_natCast (by omega)]
  obtain ⟨m', hrun, hwrites⟩ := copyBack_writes (m := m) (y := bytesAt m input)
    (fun m i k => m (input.data + (toSize ((i : ℤ) * wide) + k)))
    hcol hle hsize.le (by omega) hdst fun i hi m' hm' k hk => by
      have hplace : i * wide + k < row * wide := place_lt hi (by omega)
      rw [← Nat.cast_mul, toSize_natCast (by omega)]
      exact hm' _ (by omega)
  rw [Int.toNat_natCast, hrun]
  exact ⟨m', rfl, hwrites⟩

/-- `decode` takes the padding away, in place or not. -/
theorem decode_writes (h : PaddedSizes input.size col unit) (hbuf : Buffers input output alloc)
    (hplace : input.data = output.data → input.size < 2 ^ 31)
    (hroom : input.size / alignUp col unit * col ≤ output.size) :
    ∃ m', decode m input output col unit alloc =
        ⟨m', ⟨input.size / alignUp col unit * col, output.data⟩, 0⟩ ∧
      Writes m m' output.data (input.size / alignUp col unit * col)
        (unpad col (alignUp col unit) (bytesAt m input)) := by
  have hcol := h.colPos
  have hunit := h.unitPos
  have hle : col ≤ alignUp col unit := le_alignUp col hunit
  have hlt := alignUp_lt col hunit
  have hwidth := h.width
  have htotal := h.total
  have hsize : input.size / alignUp col unit * alignUp col unit = input.size :=
    Nat.div_mul_cancel h.whole
  rw [decode, if_neg (by omega), alignedCol_eq hcol hunit hwidth, if_neg (by omega),
    if_neg hbuf.source]
  by_cases hempty : input.size = 0
  · rw [if_pos hempty, hempty, Nat.zero_div, Nat.zero_mul]
    exact ⟨m, rfl, nofun, Framed.refl m _ _⟩
  rw [if_neg hempty, decodedRest, decodedRows, toUint32_natCast (by omega),
    if_neg (not_not.mpr (Nat.mod_eq_zero_of_dvd h.whole)), toInt32_natCast h.rows]
  have hdecoded : decodedSize (input.size / alignUp col unit : ℕ) col =
      input.size / alignUp col unit * col := by
    have hproduct := Nat.mul_le_mul_left (input.size / alignUp col unit) hle
    have hrows := h.rows
    rw [decodedSize, toUint32_natCast (by omega), toUint32_natCast (by omega),
      Nat.mod_eq_of_lt (by omega)]
  simp only [hdecoded, if_neg hbuf.destination, if_neg (not_lt.mpr hroom)]
  by_cases hsame : input.data = output.data
  · exact decodeRows_writes_same hbuf hcol hle hsize hroom hsame (hplace hsame)
  · exact decodeRows_writes_apart hbuf hcol hle hsize htotal hroom hsame

end

/-! ### There and back -/

/-- Whole rows, and no `int` overflows on the way. -/
structure SmallRows (size col unit : ℕ) : Prop where
  colPos : 1 ≤ col
  unitPos : 1 ≤ unit
  whole : col ∣ size
  width : col + unit ≤ 2 ^ 31
  total : size / col * alignUp col unit < 2 ^ 31

namespace SmallRows
variable {size col unit : ℕ} (h : SmallRows size col unit)

include h

theorem wide_pos : 0 < alignUp col unit :=
  Nat.lt_of_lt_of_le h.colPos (le_alignUp col h.unitPos)

theorem rowSizes : RowSizes size col unit where
  colPos := h.colPos
  unitPos := h.unitPos
  whole := h.whole
  width := h.width
  rows := Nat.lt_of_le_of_lt (Nat.le_mul_of_pos_right _ h.wide_pos) h.total
  total := h.total.trans (by decide)

theorem paddedSizes : PaddedSizes (size / col * alignUp col unit) col unit where
  colPos := h.colPos
  unitPos := h.unitPos
  width := h.width
  whole := Nat.dvd_mul_left ..
  rows := by
    rw [Nat.mul_div_cancel _ h.wide_pos]
    exact h.rowSizes.rows
  total := h.rowSizes.total

end SmallRows

/-- Two buffers, each in a memory of its own, hold the same bytes. -/
def SameBytes (m : ProcessMemory) (a : Bytes) (m' : ProcessMemory) (b : Bytes) : Prop :=
  a.size = b.size ∧ ∀ k < a.size, m (a.data + k) = m' (b.data + k)

/-- What is written depends only on the bytes read, not on where they are. -/
theorem sameBytes_of_writes {m m₁ m' m₁' : ProcessMemory} {data data' n : ℕ} {f g : ℕ → UInt8}
    (h : Writes m m₁ data n f) (h' : Writes m' m₁' data' n g) (hfg : ∀ p < n, f p = g p) :
    SameBytes m₁ ⟨n, data⟩ m₁' ⟨n, data'⟩ :=
  ⟨rfl, fun p hp => by rw [h.bytes p hp, h'.bytes p hp, hfg p hp]⟩

theorem pad_congr {x y : ℕ → UInt8} {size col wide p : ℕ} (hwhole : col ∣ size)
    (h : ∀ k < size, x k = y k) (hp : p < size / col * wide) :
    pad col wide x p = pad col wide y p := by
  rw [pad, pad]
  split_ifs with hdata
  · have hrow : p / wide < size / col := Nat.div_lt_of_lt_mul (by rwa [Nat.mul_comm])
    have hplace : p / wide * col + p % wide < size / col * col := place_lt hrow hdata
    rw [Nat.div_mul_cancel hwhole] at hplace
    exact h _ hplace
  · rfl

theorem unpad_congr {x y : ℕ → UInt8} {size col wide q : ℕ} (hcol : 0 < col) (hle : col ≤ wide)
    (hwhole : wide ∣ size) (h : ∀ k < size, x k = y k) (hq : q < size / wide * col) :
    unpad col wide x q = unpad col wide y q := by
  have hrow : q / col < size / wide := Nat.div_lt_of_lt_mul (by rwa [Nat.mul_comm])
  have hplace : q / col * wide + q % col < size / wide * wide :=
    place_lt hrow ((Nat.mod_lt q hcol).trans_le hle)
  rw [Nat.div_mul_cancel hwhole] at hplace
  exact h _ hplace

/-- `encode` writes the rows with zeros between them, and nothing else; `decode` gives back what was
    encoded; and neither of them depends on whether source and destination are one buffer. -/
theorem row_padding_round_trip {m : ProcessMemory} {x y : Bytes} {col unit : ℕ} {alloc : Bool}
    (h : SmallRows x.size col unit) (hbuf : Buffers x y alloc)
    (hroom : x.size / col * alignUp col unit ≤ y.size) :
    let wide := alignUp col unit
    let e := encode m x y col unit alloc
    (e.ret = 0 ∧ e.output = ⟨x.size / col * wide, y.data⟩ ∧
      (∀ i < x.size / col, ∀ j < wide, e.memory (y.data + (i * wide + j)) =
        if j < col then m (x.data + (i * col + j)) else 0) ∧
      Framed m y.data e.output.size e.memory) ∧
    (∀ (z : Bytes) (alloc' : Bool), Buffers e.output z alloc' → x.size ≤ z.size →
      let d := decode e.memory e.output z col unit alloc'
      d.ret = 0 ∧ SameBytes d.memory d.output m x ∧ Framed e.memory z.data x.size d.memory) ∧
    (∀ (m' : ProcessMemory) (x' y' : Bytes) (alloc' : Bool), SameBytes m x m' x' →
      Buffers x' y' alloc' → x.size / col * wide ≤ y'.size →
      let e' := encode m' x' y' col unit alloc'
      SameBytes e.memory e.output e'.memory e'.output) ∧
    ∀ (m₁ m₂ : ProcessMemory) (y₁ z₁ y₂ z₂ : Bytes) (alloc₁ alloc₂ : Bool),
      y₁.size = x.size / col * wide → SameBytes m₁ y₁ m₂ y₂ →
      Buffers y₁ z₁ alloc₁ → Buffers y₂ z₂ alloc₂ → x.size ≤ z₁.size → x.size ≤ z₂.size →
      let d₁ := decode m₁ y₁ z₁ col unit alloc₁
      let d₂ := decode m₂ y₂ z₂ col unit alloc₂
      d₁.ret = 0 ∧ d₂.ret = 0 ∧ SameBytes d₁.memory d₁.output d₂.memory d₂.output := by
  intro wide e
  have hcol : 0 < col := h.colPos
  have hle : col ≤ wide := le_alignUp col h.unitPos
  have hsize : x.size / col * col = x.size := Nat.div_mul_cancel h.whole
  have hrows : x.size / col * wide / wide = x.size / col := Nat.mul_div_cancel _ h.wide_pos
  obtain ⟨m', he, hwrites⟩ := encode_writes (m := m) h.rowSizes hbuf hroom
  have hdecode : ∀ (m₁ : ProcessMemory) {y₁ z₁ : Bytes} {alloc₁ : Bool},
      y₁.size = x.size / col * wide → Buffers y₁ z₁ alloc₁ → x.size ≤ z₁.size →
      ∃ m₂, decode m₁ y₁ z₁ col unit alloc₁ = ⟨m₂, ⟨x.size, z₁.data⟩, 0⟩ ∧
        Writes m₁ m₂ z₁.data x.size (unpad col wide (bytesAt m₁ y₁)) := by
    intro m₁ y₁ z₁ alloc₁ hy hbuf₁ hz
    have hpadded := hy ▸ h.paddedSizes
    have hback : y₁.size / alignUp col unit * col = x.size := by rw [hy, hrows, hsize]
    obtain ⟨m₂, hd, hwrites₁⟩ := decode_writes (m := m₁) hpadded hbuf₁
      (fun _ => hy ▸ h.total) (hback ▸ hz)
    rw [hback] at hd hwrites₁
    exact ⟨m₂, hd, hwrites₁⟩
  simp only [e, he]
  refine ⟨⟨trivial, rfl, fun i hi j hj => ?_, hwrites.frame⟩, fun z alloc' hbuf' hz => ?_,
    fun m₂ x' y' alloc' hsame hbuf' hroom' => ?_,
    fun m₁ m₂ y₁ z₁ y₂ z₂ alloc₁ alloc₂ hy hsame hbuf₁ hbuf₂ hz₁ hz₂ => ?_⟩
  · rw [hwrites.bytes _ (place_lt hi hj), pad_at _ hj]
    rfl
  · obtain ⟨m₂, hd, hback⟩ := hdecode m' rfl hbuf' hz
    simp only [hd]
    refine ⟨trivial, ⟨rfl, fun k hk => ?_⟩, hback.frame⟩
    have hpad : ∀ p < x.size / col * wide,
        bytesAt m' ⟨x.size / col * wide, y.data⟩ p = pad col wide (bytesAt m x) p := hwrites.bytes
    rw [hback.bytes k hk,
      unpad_congr hcol hle (Nat.dvd_mul_left ..) hpad (by rwa [hrows, hsize]), unpad_pad _ hcol hle]
    rfl
  · obtain ⟨m₃, he', hwrites'⟩ :=
      encode_writes (m := m₂) (hsame.1 ▸ h.rowSizes) hbuf' (hsame.1 ▸ hroom')
    rw [← hsame.1] at he' hwrites'
    simp only [he']
    exact sameBytes_of_writes hwrites hwrites' fun p hp => pad_congr h.whole hsame.2 hp
  · obtain ⟨m₃, hd₁, hw₁⟩ := hdecode m₁ hy hbuf₁ hz₁
    obtain ⟨m₄, hd₂, hw₂⟩ := hdecode m₂ (hsame.1 ▸ hy) hbuf₂ hz₂
    simp only [hd₁, hd₂, true_and]
    refine sameBytes_of_writes hw₁ hw₂ fun q hq => ?_
    exact unpad_congr hcol hle (hy ▸ Nat.dvd_mul_left ..) hsame.2 (by rwa [hy, hrows, hsize])

/-- Two rows of three bytes are padded in place, and unpadded into another buffer. -/
theorem row_padding_round_trip_two_rows :
    let e := encode (fun a => UInt8.ofNat a) ⟨6, 4096⟩ ⟨8, 4096⟩ 3 4 true
    e.ret = 0 ∧ (decode e.memory e.output ⟨6, 8192⟩ 3 4 false).ret = 0 := by
  have h := @row_padding_round_trip (fun a => UInt8.ofNat a) ⟨6, 4096⟩ ⟨8, 4096⟩ 3 4 true
    ⟨by decide, by decide, by decide, by decide, by decide⟩
    ⟨by decide, by decide, by decide, fun _ => rfl, nofun⟩ (by decide)
  obtain ⟨⟨hret, houtput, -, -⟩, hdecode, -, -⟩ := h
  refine ⟨hret, (hdecode ⟨6, 8192⟩ false ?_ (by decide)).1⟩
  rw [houtput]
  exact ⟨by decide, by decide, by decide, nofun, fun _ => by decide⟩

end DxRt.NpuFormatHandler
