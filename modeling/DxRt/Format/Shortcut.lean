import DxRt.Format.Writes

/-! lib/npu_format_handler.cpp: the shortcut of `EncodeInputs`.

    A single input that already has the encoded size is used in place instead of being encoded. That
    is right only where the encoder would have left every byte where it is. -/

namespace DxRt.NpuFormatHandler
open Blocks Stores

variable {m : ProcessMemory} {input output : Bytes} {col unit : ℤ} {alloc : Bool}

/-- Whatever the input holds, an encoder that reports no error produces the bytes that it reads. -/
def Identity (encoder : ProcessMemory → Encoded) (input : Bytes) : Prop :=
  ∀ m, (encoder m).ret = 0 → SameBytes (encoder m).memory (encoder m).output m input

/-- A byte of the output that no copy covers is zero. -/
theorem cleared_byte {l : List (Store UInt8)} {data n p : ℕ} (hp : p < n)
    (h : ∀ s ∈ l, ¬ s.Covers (data + p)) : replay (clear data n :: l) m (data + p) = 0 := by
  rw [replay_cons, replay_of_not_covers h]
  exact if_pos ⟨Nat.le_add_right _ _, Nat.add_lt_add_left hp _⟩

/-- An input of ones shows the loss. -/
theorem no_zero_of_ones {p : ℕ} (h : SameBytes m output (fun _ => 1) input) (hp : p < input.size) :
    m (output.data + p) ≠ 0 := by
  intro hzero
  have hbyte : m (output.data + p) = 1 := h.2 p (h.1 ▸ hp)
  rw [hzero] at hbyte
  cases hbyte

/-! ### Padded rows -/

/-- A row covers only places of its own in the output, also when the addresses wrap around. -/
theorem row_covers {data p width : ℕ} {z : ℤ} (hz : -2 ^ 62 ≤ z ∧ z ≤ 2 ^ 62) (hp : p < 2 ^ 32)
    (hwidth : width < 2 ^ 31)
    (h : toSize (data + z) ≤ data + p ∧ data + p < toSize (data + z) + width) :
    z ≤ p ∧ p < z + width := by
  rw [toSize, HandleTable.toUint64] at h
  omega

/-- Rows that do not lie side by side leave out a byte. -/
theorem exists_hole (data : ℕ) {row col : ℕ} {wide : ℤ} (hcol : 0 < col) (hcol' : col < 2 ^ 31)
    (hrow : 2 ≤ row) (hrow' : row < 2 ^ 31) (hwide : -2 ^ 31 ≤ wide ∧ wide < 2 ^ 31)
    (hne : wide ≠ col) (hsize : row * col < 2 ^ 32) :
    ∃ p < row * col, ∀ i < row, ¬ (toSize (data + i * wide) ≤ data + p ∧
      data + p < toSize (data + i * wide) + col) := by
  have hcovers : ∀ p < row * col, ∀ i < row, (toSize (data + i * wide) ≤ data + p ∧
      data + p < toSize (data + i * wide) + col) → (i : ℤ) * wide ≤ p ∧ p < i * wide + col :=
    fun p hp i hi => row_covers (rowOffset_bounds row (by omega) (by omega) hwide)
      (by omega) hcol'
  have hend : 2 * col ≤ row * col := Nat.mul_le_mul_right _ hrow
  rcases lt_or_gt_of_ne hne with hless | hmore
  · -- The rows lie too close: none of them reaches the last byte.
    refine ⟨row * col - 1, by omega, fun i hi hc => ?_⟩
    obtain ⟨-, hlast⟩ := hcovers _ (by omega) i hi hc
    have hnext : (i + 1) * col ≤ row * col := Nat.mul_le_mul_right _ hi
    rw [Nat.add_mul, Nat.one_mul] at hnext
    rcases Nat.eq_zero_or_pos i with rfl | hpos
    · omega
    · have hlow : (i : ℤ) * wide < i * col := mul_lt_mul_of_pos_left hless (by omega)
      have hcast : ((i * col : ℕ) : ℤ) = i * col := Nat.cast_mul ..
      omega
  · -- The rows lie too far apart: nothing is written right behind the first one.
    refine ⟨col, by omega, fun i hi hc => ?_⟩
    obtain ⟨hfirst, hlast⟩ := hcovers _ (by omega) i hi hc
    rcases Nat.eq_zero_or_pos i with rfl | hpos
    · omega
    · have hfar : (1 : ℤ) * wide ≤ i * wide := mul_le_mul_of_nonneg_right (by omega) (by omega)
      omega

/-- The unit divides the columns, as far as `int` can tell, and the rows can be counted. -/
def Dense (input output : Bytes) (col unit : ℤ) : Prop :=
  alignedCol col unit = col ∧ (input.data = output.data ∨ input.size / col.toNat < 2 ^ 31)

/-- Where the unit does not divide the columns, some byte of an output of the input's size is not
    written by any row. -/
theorem exists_cleared (hfits : Fits input output col unit alloc)
    (hinput : input.size < 2 ^ 32) (hcol : col < 2 ^ 31) (hsize : input.size ≠ 0)
    (hexpected : expectedSize input.size col unit = input.size)
    (hdense : ¬ Dense input output col unit) :
    ∃ p < input.size, replay (encodeStores m input output col unit) m (output.data + p) = 0 := by
  have hstay : ¬ (input.data = output.data ∧ col = alignedCol col unit) :=
    fun h => hdense ⟨h.2.symm, Or.inl h.1⟩
  have hroom := hfits.room
  rw [encodeStores, if_neg hstay, hexpected]
  obtain ⟨c, rfl⟩ := Int.eq_ofNat_of_zero_le hfits.colPos.le
  have hcolPos := hfits.colPos
  have hwhole : input.size / c * c = input.size :=
    Nat.div_mul_cancel (Nat.dvd_of_mod_eq_zero (by simpa using hfits.whole))
  by_cases hmany : 2 ^ 31 ≤ input.size / c
  · -- The number of rows is negative, and the loop does nothing.
    have hnone : (rows input.size c).toNat = 0 := by
      have hle : input.size / c ≤ input.size := Nat.div_le_self ..
      rw [rows, Int.toNat_natCast, toInt32, Int.bmod_def]
      omega
    refine ⟨0, by omega, cleared_byte (by omega) ?_⟩
    rw [rowCopies, hnone]
    exact List.forall_mem_nil _
  rw [not_le] at hmany
  have hwide := toInt32_bounds (cdiv c unit * unit)
  rw [← alignedCol] at hwide
  have hne : alignedCol c unit ≠ c := fun h => hdense ⟨h, Or.inr (by simpa using hmany)⟩
  have htwo : 2 ≤ input.size / c := by
    by_contra hone
    have hone : input.size / c = 1 := by
      have hpos : input.size / c ≠ 0 := fun hzero => hsize (by rw [← hwhole, hzero, Nat.zero_mul])
      exact le_antisymm (Nat.lt_succ_iff.mp (not_le.mp hone)) (Nat.pos_of_ne_zero hpos)
    rw [expectedSize, rows_eq hmany, hone, toUint32_natCast (by norm_num), Nat.one_mul, toUint32]
      at hexpected
    rw [hone, Nat.one_mul] at hwhole
    omega
  obtain ⟨p, hp, hhole⟩ := exists_hole output.data (by omega) (by omega) htwo hmany hwide
    hne (by omega)
  refine ⟨p, by omega, cleared_byte (by omega) fun s hs hc => ?_⟩
  obtain ⟨i, hi, rfl⟩ := List.mem_map.mp hs
  rw [rows_eq hmany, Int.toNat_natCast, List.mem_range] at hi
  exact hhole i hi hc

/-- The rows of an input without padding can be encoded as they are. -/
theorem Dense.rowSizes {col unit : ℕ} (hfits : Fits input output col unit alloc)
    (hinput : input.size < 2 ^ 32) (hcol : col < 2 ^ 31) (hunit : unit < 2 ^ 31)
    (h : alignedCol col unit = col) (hrows : input.size / col < 2 ^ 31) :
    RowSizes input.size col unit ∧ alignUp col unit = col := by
  have hcolPos : 0 < col := by exact_mod_cast hfits.colPos
  have hunitPos : 0 < unit := by exact_mod_cast hfits.unitPos
  have hwhole : col ∣ input.size := Nat.dvd_of_mod_eq_zero (by simpa using hfits.whole)
  obtain ⟨hwidth, haligned⟩ := width_of_aligned hcolPos hunitPos hcol hunit h
  refine ⟨⟨hcolPos, hunitPos, hwhole, hwidth, hrows, ?_⟩, haligned⟩
  rwa [haligned, Nat.div_mul_cancel hwhole]

/-- The rows of an input are as many as the product says. -/
theorem expectedSize_dense {col : ℕ} (hcol : col < 2 ^ 31) (hinput : input.size < 2 ^ 32)
    (hwhole : col ∣ input.size) (h : alignedCol col unit = col) :
    expectedSize input.size col unit = input.size := by
  have hle : input.size / col ≤ input.size := Nat.div_le_self ..
  rw [expectedSize, h, rows, Int.toNat_natCast, toUint32_toInt32 (by omega),
    toUint32_natCast (by omega), Nat.div_mul_cancel hwhole, Nat.mod_eq_of_lt hinput]

/-- An encoder of padded rows leaves every byte where it is if there is no padding, and only then. -/
theorem encode_identity_iff (hinput : input.size < 2 ^ 32) (hcol : col < 2 ^ 31)
    (hunit : unit < 2 ^ 31) (hbuf : Buffers input output alloc) :
    Identity (fun m => encode m input output col unit alloc) input ↔
      (Fits input output col unit alloc → input.size = 0 ∨ Dense input output col unit) := by
  constructor
  · intro h hfits
    by_contra hnot
    obtain ⟨hsize, hdense⟩ := not_or.mp hnot
    have hsame := h (fun _ => 1) (by simp only [encode_eq hfits])
    simp only [encode_eq hfits] at hsame
    obtain ⟨p, hp, hzero⟩ := exists_cleared (m := fun _ => 1) hfits hinput hcol hsize hsame.1 hdense
    exact no_zero_of_ones hsame hp hzero
  · intro h m hret
    have hfits := (encode_ret m input output col unit alloc).accepted hret
    obtain ⟨c, rfl⟩ := Int.eq_ofNat_of_zero_le hfits.colPos.le
    obtain ⟨u, rfl⟩ := Int.eq_ofNat_of_zero_le hfits.unitPos.le
    have hwhole : c ∣ input.size := Nat.dvd_of_mod_eq_zero (by simpa using hfits.whole)
    have hcolPos : 0 < c := by exact_mod_cast hfits.colPos
    rcases h hfits with hempty | ⟨haligned, hcount⟩
    · simp only [encode_eq hfits]
      refine ⟨?_, fun k hk => ?_⟩
      · rw [expectedSize, hempty, rows, Nat.zero_div]
        simp [toInt32, toUint32]
      · simp only [expectedSize, hempty, rows, Nat.zero_div] at hk
        simp [toInt32, toUint32] at hk
    · by_cases hmany : input.size / c < 2 ^ 31
      · obtain ⟨hsizes, halign⟩ :=
          Dense.rowSizes hfits hinput (by omega) (by omega) haligned hmany
        have hback : input.size / c * alignUp c u = input.size := by
          rw [halign, Nat.div_mul_cancel hwhole]
        have hroom := hfits.room
        rw [expectedSize_dense (by omega) hinput hwhole haligned] at hroom
        obtain ⟨m', he, hwrites⟩ := encode_writes (m := m) hsizes hbuf (by rwa [hback])
        rw [hback] at he hwrites
        simp only [he]
        refine ⟨rfl, fun k hk => ?_⟩
        rw [hwrites.bytes k hk, halign, pad_self _ hcolPos]
        rfl
      · have hsame := hcount.resolve_right (by simpa using hmany)
        simp only [encode_eq hfits, encodeStores, if_pos (And.intro hsame haligned.symm), replay_nil,
          expectedSize_dense (by omega : c < 2 ^ 31) hinput hwhole haligned]
        exact ⟨rfl, fun k _ => by rw [hsame]⟩

/-! ### Grouped columns -/

/-- The unit divides the columns, the rows can be counted, and there is only one group or one row.
    In place the input is lost. -/
def OneBlock (input output : Bytes) (col unit : ℤ) : Prop :=
  input.data ≠ output.data ∧ alignedCol col unit = col ∧ input.size / col.toNat < 2 ^ 31 ∧
    (col = unit ∨ input.size = col.toNat)

/-- In place every copy brings zeros. -/
theorem formattedStores_same {p : ℕ} (hsame : input.data = output.data)
    (hfits : FormattedFits input output col unit alloc) (hcol : col < 2 ^ 31)
    (hunit : unit < 2 ^ 31) (hsize : input.size ≠ 0)
    (hexpected : expectedSize input.size col unit = input.size) (hp : p < input.size) :
    replay (formattedStores m input output col unit) m (output.data + p) = 0 := by
  have hclear : ∀ k < input.size, m.memset output.data 0 input.size (output.data + k) = 0 :=
    fun k hk => if_pos ⟨Nat.le_add_right _ _, Nat.add_lt_add_left hk _⟩
  rw [formattedStores, if_neg hsize, replay_cons, hexpected]
  refine replay_constant (fun s hs m' k hk => ?_) (hclear p hp)
  obtain ⟨⟨g, i⟩, hmem, rfl⟩ := List.mem_map.mp hs
  simp only at hk ⊢
  have hcopy : 0 < copySize col unit g := by omega
  have hinside := hfits.copies hsize _ hmem hcopy
  rw [inBuffers_iff ⟨hfits.channelPos, hcol⟩ ⟨hfits.unitPos, hunit⟩ (rows_lt ..) hmem hcopy]
    at hinside
  rw [if_pos hsame, hexpected, hsame]
  exact hclear _ (by omega)

/-- Where `int` sees no row or no group, nothing is copied. -/
theorem groupRows_eq_nil (hfits : FormattedFits input output col unit alloc)
    (hinput : input.size < 2 ^ 32) (hcol : col < 2 ^ 31) (hunit : unit < 2 ^ 31)
    (h : 2 ^ 31 < col + unit ∨ 2 ^ 31 ≤ input.size / col.toNat) :
    groupRows col unit (rows input.size col) = [] := by
  rw [List.eq_nil_iff_forall_not_mem]
  rintro ⟨g, i⟩ hmem
  rw [groupRows, List.mem_product, List.mem_range, List.mem_range] at hmem
  obtain ⟨hgroup, hrow⟩ := hmem
  rcases h with hwide | hmany
  · have hnone := (cdiv_nonpos ⟨hfits.channelPos, hcol⟩ ⟨hfits.unitPos, hunit⟩ hwide).1
    omega
  · have hle : input.size / col.toNat ≤ input.size := Nat.div_le_self ..
    rw [rows, toInt32, Int.bmod_def] at hrow
    omega

/-- A padded output of the input's size has no room for the last copy. -/
theorem aligned_of_fits {col unit : ℕ} (hfits : FormattedFits input output col unit alloc)
    (hsize : input.size ≠ 0) (hwidth : col + unit ≤ 2 ^ 31) (hrows : input.size / col < 2 ^ 31)
    (hexpected : expectedSize input.size col unit = input.size) : alignUp col unit = col := by
  have hcol : 0 < col := by exact_mod_cast hfits.channelPos
  have hunit : 0 < unit := by exact_mod_cast hfits.unitPos
  have hwhole : input.size / col * col = input.size :=
    Nat.div_mul_cancel (Nat.dvd_of_mod_eq_zero (by simpa using hfits.whole))
  have hle := le_alignUp col hunit
  have hlt := alignUp_lt col hunit
  have hcopies := hfits.copies hsize
  rw [rows_eq hrows, hexpected] at hcopies
  rw [expectedSize, rows_eq hrows, alignedCol_eq hcol hunit hwidth, toUint32_natCast (by omega),
    toUint32_natCast (by omega)] at hexpected
  generalize input.size / col = row at *
  rcases Nat.lt_or_ge row 2 with hfew | hmany
  · obtain rfl : row = 1 := by
      have hpos : row ≠ 0 := fun hzero => hsize (by rw [← hwhole, hzero, Nat.zero_mul])
      omega
    rw [Nat.one_mul, Nat.mod_eq_of_lt (by omega)] at hexpected
    omega
  obtain ⟨s, rfl⟩ : ∃ s, row = s + 1 := ⟨row - 1, by omega⟩
  have hgroups : 0 < groups col unit := group_lt (j := 0) hunit (by omega)
  obtain ⟨g, hg⟩ : ∃ g, groups col unit = g + 1 := ⟨groups col unit - 1, by omega⟩
  have hmul := groups_mul col unit
  rw [hg, Nat.add_mul, Nat.one_mul] at hmul
  have hgroup : g < groups col unit := by omega
  have hfirst := lt_of_group hunit hgroup
  have hmem : (g, s) ∈ groupRows (col : ℤ) unit (s + 1 : ℕ) :=
    (mem_groupRows hcol hunit hwidth).mpr ⟨hgroup, Nat.lt_succ_self s⟩
  have hcopy := copySize_eq hunit hwidth hgroup
  have hpos : 0 < copySize (col : ℤ) unit g := by
    rw [hcopy]
    omega
  have hinside := hcopies _ hmem hpos
  rw [inBuffers_iff ⟨by omega, by omega⟩ ⟨by omega, by omega⟩ (by omega) hmem hpos, hcopy,
    Int.toNat_natCast] at hinside
  have hbound : g * unit * (s + 1) ≤ 2 ^ 31 * 2 ^ 31 := Nat.mul_le_mul (by omega) (by omega)
  have hbound' : s * unit ≤ 2 ^ 31 * 2 ^ 31 := Nat.mul_le_mul (by omega) (by omega)
  have hbase : g * ((s + 1) * unit) = g * unit * (s + 1) := by ring
  rw [dstAddr_eq (by omega), hbase] at hinside
  -- `s * wide ≤ s * col`, and there are at least two rows.
  have hroom : s * (g * unit + unit) ≤ s * col := by
    rw [← hwhole, Nat.mul_add, Nat.mul_one, Nat.add_mul, Nat.one_mul] at hinside
    rw [Nat.mul_add, Nat.mul_comm s (g * unit)]
    omega
  have hwide := Nat.le_of_mul_le_mul_left hroom (by omega)
  omega

/-- With more than one group and more than one row, the second row comes before the second group. -/
theorem group_moves {row col unit : ℕ} {x : ℕ → UInt8} (hunit : 0 < unit) (hless : unit < col)
    (hrow : 1 < row) : group row col unit x unit = x col := by
  have hplace : group row col unit x (0 * (row * unit) + (1 * unit + 0)) =
      if 0 * unit + 0 < col then x (1 * col + (0 * unit + 0)) else 0 := group_at x hrow hunit
  rw [if_pos (by omega)] at hplace
  simpa using hplace

/-- What is not one block has several groups and several rows, unless it is padded or encoded in
    place. -/
theorem several_of_not_oneBlock {col unit : ℕ} (hsizes : RowSizes input.size col unit)
    (hsize : input.size ≠ 0) (halign : alignUp col unit = col) (hplace : input.data ≠ output.data)
    (hblock : ¬ OneBlock input output col unit) : unit < col ∧ 1 < input.size / col := by
  have hone : ¬ ((col : ℤ) = unit ∨ input.size = col) := fun h => hblock ⟨hplace,
    by rw [alignedCol_eq hsizes.colPos hsizes.unitPos hsizes.width, halign],
    by simpa using hsizes.rows, by simpa using h⟩
  obtain ⟨hne, hrow⟩ := not_or.mp hone
  have hle : unit ≤ col := Nat.le_of_dvd hsizes.colPos ((alignUp_eq_iff hsizes.unitPos).mp halign)
  refine ⟨lt_of_le_of_ne hle fun heq => hne (by rw [heq]), ?_⟩
  by_contra hfew
  have hpos : 0 < input.size / col := Nat.div_pos
    (Nat.le_of_dvd (Nat.pos_of_ne_zero hsize) hsizes.whole) hsizes.colPos
  have hmul := Nat.div_mul_cancel hsizes.whole
  rw [(by omega : input.size / col = 1), Nat.one_mul] at hmul
  exact hrow hmul.symm

/-- With several groups and several rows a byte moves. -/
theorem not_identity_of_several {col unit : ℕ} (hsizes : RowSizes input.size col unit)
    (hbuf : Buffers input output alloc) (hroom : input.size ≤ output.size)
    (halign : alignUp col unit = col) (hplace : input.data ≠ output.data) (hless : unit < col)
    (hrows : 1 < input.size / col) :
    ¬ Identity (fun m => encodeFormatted m input output col unit alloc) input := by
  intro h
  have hunit : 0 < unit := hsizes.unitPos
  have hback : input.size / col * alignUp col unit = input.size := by
    rw [halign, Nat.div_mul_cancel hsizes.whole]
  have hlast : 2 * col ≤ input.size / col * col := Nat.mul_le_mul_right _ hrows
  rw [Nat.div_mul_cancel hsizes.whole] at hlast
  -- One byte is set: the first one of the second row.
  obtain ⟨m', he, hwrites⟩ := encodeFormatted_writes
    (m := fun a => if a = input.data + col then 1 else 0) hsizes hbuf (by rwa [hback])
  rw [if_neg hplace, hback] at hwrites
  have hmoved := (h (fun a => if a = input.data + col then 1 else 0) (by simp only [he])).2 unit
    (by simp only [he, hback]; omega)
  simp only [he] at hmoved
  rw [hwrites.bytes unit (by omega), group_moves hunit hless hrows, bytesAt, if_pos rfl,
    if_neg (by omega)] at hmoved
  cases hmoved

theorem oneBlock_of_identity (hinput : input.size < 2 ^ 32) (hcol : col < 2 ^ 31)
    (hunit : unit < 2 ^ 31) (hbuf : Buffers input output alloc) (hroom : input.size ≤ output.size)
    (h : Identity (fun m => encodeFormatted m input output col unit alloc) input)
    (hfits : FormattedFits input output col unit alloc) (hsize : input.size ≠ 0) :
    OneBlock input output col unit := by
  have hpos : 0 < input.size := Nat.pos_of_ne_zero hsize
  have hsame : SameBytes (replay (formattedStores (fun _ => 1) input output col unit) fun _ => 1)
      ⟨formattedSize input.size col unit, output.data⟩ (fun _ => 1) input := by
    have hm := h (fun _ => 1) (by simp only [encodeFormatted_eq hfits])
    simpa only [encodeFormatted_eq hfits] using hm
  have hexpected := hsame.1
  simp only [formattedSize, if_neg hsize] at hexpected
  by_contra hblock
  by_cases hplace : input.data = output.data
  · exact no_zero_of_ones hsame hpos
      (formattedStores_same hplace hfits hcol hunit hsize hexpected hpos)
  by_cases hnone : 2 ^ 31 < col + unit ∨ 2 ^ 31 ≤ input.size / col.toNat
  · refine no_zero_of_ones hsame hpos ?_
    rw [formattedStores, if_neg hsize, groupCopies, groupRows_eq_nil hfits hinput hcol hunit hnone]
    exact cleared_byte (by omega) (List.forall_mem_nil _)
  obtain ⟨c, rfl⟩ := Int.eq_ofNat_of_zero_le hfits.channelPos.le
  obtain ⟨u, rfl⟩ := Int.eq_ofNat_of_zero_le hfits.unitPos.le
  obtain ⟨hwidth, hcount⟩ := not_or.mp hnone
  rw [Int.toNat_natCast, not_le] at hcount
  have hwidth : c + u ≤ 2 ^ 31 := by omega
  have hwhole : c ∣ input.size := Nat.dvd_of_mod_eq_zero (by simpa using hfits.whole)
  have halign := aligned_of_fits hfits hsize hwidth hcount hexpected
  have hsizes : RowSizes input.size c u := ⟨by exact_mod_cast hfits.channelPos,
    by exact_mod_cast hfits.unitPos, hwhole, hwidth, hcount,
    by rwa [halign, Nat.div_mul_cancel hwhole]⟩
  obtain ⟨hless, hrows⟩ := several_of_not_oneBlock hsizes hsize halign hplace hblock
  exact not_identity_of_several hsizes hbuf hroom halign hplace hless hrows h

theorem OneBlock.same (hinput : input.size < 2 ^ 32) (hcol : col < 2 ^ 31) (hunit : unit < 2 ^ 31)
    (hbuf : Buffers input output alloc) (hroom : input.size ≤ output.size)
    (hfits : FormattedFits input output col unit alloc) (h : OneBlock input output col unit) :
    SameBytes (encodeFormatted m input output col unit alloc).memory
      (encodeFormatted m input output col unit alloc).output m input := by
  obtain ⟨hplace, haligned, hcount, hone⟩ := h
  obtain ⟨c, rfl⟩ := Int.eq_ofNat_of_zero_le hfits.channelPos.le
  obtain ⟨u, rfl⟩ := Int.eq_ofNat_of_zero_le hfits.unitPos.le
  have hc : 0 < c := by exact_mod_cast hfits.channelPos
  have hu : 0 < u := by exact_mod_cast hfits.unitPos
  have hwhole : c ∣ input.size := Nat.dvd_of_mod_eq_zero (by simpa using hfits.whole)
  obtain ⟨hwidth, halign⟩ := width_of_aligned hc hu (by omega) (by omega) haligned
  have hback : input.size / c * alignUp c u = input.size := by
    rw [halign, Nat.div_mul_cancel hwhole]
  have hsizes : RowSizes input.size c u :=
    ⟨hc, hu, hwhole, hwidth, by simpa using hcount, by rwa [hback]⟩
  obtain ⟨m', he, hwrites⟩ := encodeFormatted_writes (m := m) hsizes hbuf (by rwa [hback])
  rw [if_neg hplace, hback] at hwrites
  rw [hback] at he
  simp only [he]
  refine ⟨rfl, fun k hk => ?_⟩
  rw [hwrites.bytes k hk]
  rcases hone with heq | heq
  · obtain rfl : c = u := by exact_mod_cast heq
    exact group_self _ (by rwa [Nat.div_mul_cancel hwhole])
  · rw [Int.toNat_natCast] at heq
    rw [heq, Nat.div_self hc]
    exact group_row _ hu (heq ▸ hk)

/-- The encoder of grouped columns leaves every byte where it is if there is no padding and only one
    group or one row, and only then. -/
theorem encodeFormatted_identity_iff (hinput : input.size < 2 ^ 32) (hcol : col < 2 ^ 31)
    (hunit : unit < 2 ^ 31) (hbuf : Buffers input output alloc) (hroom : input.size ≤ output.size) :
    Identity (fun m => encodeFormatted m input output col unit alloc) input ↔
      (FormattedFits input output col unit alloc →
        input.size = 0 ∨ OneBlock input output col unit) := by
  constructor
  · intro h hfits
    exact or_iff_not_imp_left.mpr (oneBlock_of_identity hinput hcol hunit hbuf hroom h hfits)
  · intro h m hret
    have hfits := (encodeFormatted_ret m input output col unit alloc).accepted hret
    rcases h hfits with hempty | hblock
    · simp only [encodeFormatted_eq hfits, formattedSize, if_pos hempty]
      exact ⟨hempty.symm, fun k hk => absurd hk (Nat.not_lt_zero k)⟩
    · exact hblock.same hinput hcol hunit hbuf hroom hfits

/-! ### EncodeInputs -/

open EncodeState

namespace EncodeState.Input

/-- What is called where the shortcut is not taken; `none` when a dimension is missing, and where the
    input is transposed, which is never skipped. -/
def encoder? (x : Input) (alloc : Bool) : Option (ProcessMemory → Encoded) :=
  match x.info.layout, x.info.transpose with
  | .preFormatter, _ =>
    some fun m => encodePreformatter m x.original x.encoded x.info.alignUnit alloc
  | .preIm2col, _ => do
    let width ← x.info.dim? 1
    let channel ← x.info.dim? 0
    some fun m => encodePreim2col m x.original x.encoded width channel x.info.alignUnit alloc
  | .formatted, .none => do
    let channel ← x.info.dim? 0
    some fun m => encodeFormatted m x.original x.encoded channel x.info.alignUnit alloc
  | .aligned, .none => do
    let channel ← x.info.dim? 0
    some fun m => encode m x.original x.encoded (x.info.scale channel)
      (x.info.scale x.info.alignUnit) alloc
  | .formatted, .channelFirstToLast | .aligned, .channelFirstToLast => none
  | _, _ => some fun m =>
    ⟨m.memcpy x.encodedPtr x.tensor.data x.original.size, ⟨x.original.size, x.encodedPtr⟩, 0⟩

/-- The encoder refuses the input, has nothing to do, or leaves every byte where it is. -/
def Neutral (x : Input) (alloc : Bool) : Prop :=
  match x.info.layout, x.info.transpose with
  | .preFormatter, _ =>
    Fits x.original x.encoded (toInt32 x.original.size) x.info.alignUnit alloc →
      x.original.size = 0 ∨
        Dense x.original x.encoded (toInt32 x.original.size) x.info.alignUnit
  | .preIm2col, _ => ∀ width ∈ x.info.dim? 1, ∀ channel ∈ x.info.dim? 0,
    Preim2colFits x.original x.encoded width channel x.info.alignUnit alloc →
      x.original.size = 0 ∨
        Dense x.original x.encoded (toInt32 (width * channel)) x.info.alignUnit
  | .formatted, .none => ∀ channel ∈ x.info.dim? 0,
    FormattedFits x.original x.encoded channel x.info.alignUnit alloc →
      x.original.size = 0 ∨ OneBlock x.original x.encoded channel x.info.alignUnit
  | .aligned, .none => ∀ channel ∈ x.info.dim? 0,
    Fits x.original x.encoded (x.info.scale channel) (x.info.scale x.info.alignUnit) alloc →
      x.original.size = 0 ∨
        Dense x.original x.encoded (x.info.scale channel) (x.info.scale x.info.alignUnit)
  | _, _ => True

end EncodeState.Input

theorem dim?_lt {info : TensorInfo} {back : ℕ} {d : ℤ} (h : d ∈ info.dim? back) : d < 2 ^ 31 := by
  obtain ⟨n, -, rfl⟩ := Option.map_eq_some_iff.mp h
  exact (toInt32_bounds n).2

theorem scale_lt (info : TensorInfo) {d : ℤ} (h : d < 2 ^ 31) : info.scale d < 2 ^ 31 := by
  rw [TensorInfo.scale]
  split_ifs
  · exact (toInt32_bounds _).2
  · exact h

theorem preformatter_identity_iff (hinput : input.size < 2 ^ 32) (hunit : unit < 2 ^ 31)
    (hbuf : Buffers input output alloc) :
    Identity (fun m => encodePreformatter m input output unit alloc) input ↔
      (Fits input output (toInt32 input.size) unit alloc →
        input.size = 0 ∨ Dense input output (toInt32 input.size) unit) := by
  have hsource : ¬ (toInt32 input.size = 0 ∧ input.data = 0) := fun h => hbuf.source h.2
  by_cases hcol : toInt32 input.size ≤ 0
  · refine iff_of_true (fun m hret => ?_) fun h => absurd h.colPos hcol.not_gt
    simp only [encodePreformatter, if_neg hsource, if_pos hcol] at hret
    cases hret
  · simp only [encodePreformatter, if_neg hsource, if_neg hcol]
    exact encode_identity_iff hinput (toInt32_bounds _).2 hunit hbuf

theorem preim2col_identity_iff {width channel : ℤ} (hinput : input.size < 2 ^ 32)
    (hunit : unit < 2 ^ 31) (hbuf : Buffers input output alloc) :
    Identity (fun m => encodePreim2col m input output width channel unit alloc) input ↔
      (Preim2colFits input output width channel unit alloc →
        input.size = 0 ∨ Dense input output (toInt32 (width * channel)) unit) := by
  by_cases hsign : width ≤ 0 ∨ channel ≤ 0
  · refine iff_of_true (fun m hret => ?_) fun h => ?_
    · simp only [encodePreim2col, if_pos hsign] at hret
      cases hret
    · exact absurd hsign (by have := h.widthPos; have := h.channelPos; omega)
  · simp only [encodePreim2col, if_neg hsign]
    rw [encode_identity_iff hinput (toInt32_bounds _).2 hunit hbuf]
    obtain ⟨hwidth, hchannel⟩ := not_or.mp hsign
    exact ⟨fun h hfits => h hfits.fits, fun h hfits =>
      h ⟨not_le.mp hwidth, not_le.mp hchannel, hfits⟩⟩

/-- A plain copy always leaves every byte where it is. -/
theorem memcpy_identity (input output : Bytes) :
    Identity (fun m => ⟨m.memcpy output.data input.data input.size, ⟨input.size, output.data⟩, 0⟩)
      input := by
  intro m _
  refine ⟨rfl, fun k hk => ?_⟩
  simp only [ProcessMemory.memcpy, ProcessMemory.copyIn, Nat.add_sub_cancel_left]
  exact if_pos ⟨Nat.le_add_right _ _, Nat.add_lt_add_left hk _⟩

theorem neutral_iff {x : Input} (hinput : x.original.size < 2 ^ 32)
    (hunit : x.info.alignUnit < 2 ^ 31) (hbuf : Buffers x.original x.encoded alloc)
    (hroom : x.original.size ≤ x.encodedSize) :
    (∀ encoder ∈ x.encoder? alloc, Identity encoder x.original) ↔ x.Neutral alloc := by
  rw [Input.encoder?, Input.Neutral]
  generalize hlayout : x.info.layout = layout
  generalize htranspose : x.info.transpose = transpose
  match layout, transpose with
  | .preFormatter, _ =>
    simp only [Option.mem_some_iff, forall_eq']
    exact preformatter_identity_iff hinput hunit hbuf
  | .preIm2col, _ =>
    simp only [Option.mem_def, Option.bind_eq_bind, Option.bind_eq_some_iff, Option.some.injEq]
    constructor
    · intro h width hwidth channel hchannel
      exact (preim2col_identity_iff hinput hunit hbuf).mp
        (h _ ⟨width, hwidth, channel, hchannel, rfl⟩)
    · rintro h _ ⟨width, hwidth, channel, hchannel, rfl⟩
      exact (preim2col_identity_iff hinput hunit hbuf).mpr (h width hwidth channel hchannel)
  | .formatted, .none =>
    simp only [Option.mem_def, Option.bind_eq_bind, Option.bind_eq_some_iff, Option.some.injEq]
    constructor
    · intro h channel hchannel
      exact (encodeFormatted_identity_iff hinput (dim?_lt hchannel) hunit hbuf hroom).mp
        (h _ ⟨channel, hchannel, rfl⟩)
    · rintro h _ ⟨channel, hchannel, rfl⟩
      exact (encodeFormatted_identity_iff hinput (dim?_lt hchannel) hunit hbuf hroom).mpr
        (h channel hchannel)
  | .aligned, .none =>
    simp only [Option.mem_def, Option.bind_eq_bind, Option.bind_eq_some_iff, Option.some.injEq]
    constructor
    · intro h channel hchannel
      exact (encode_identity_iff hinput (scale_lt _ (dim?_lt hchannel)) (scale_lt _ hunit) hbuf).mp
        (h _ ⟨channel, hchannel, rfl⟩)
    · rintro h _ ⟨channel, hchannel, rfl⟩
      exact (encode_identity_iff hinput (scale_lt _ (dim?_lt hchannel)) (scale_lt _ hunit) hbuf).mpr
        (h channel hchannel)
  | .formatted, .channelFirstToLast | .aligned, .channelFirstToLast => exact iff_of_true nofun trivial
  | .formatted, .channelLastToFirst | .aligned, .channelLastToFirst | .none, _ | .ppuYolo, _
  | .ppuFd, _ | .ppuPose, _ =>
    simp only [Option.mem_some_iff, forall_eq', iff_true]
    exact memcpy_identity x.original x.encoded

/-- The only input of a request, with fields as wide as the source has them. -/
structure OneInput (r : RequestData) (x : Input) (alloc : Bool) : Prop where
  one : r.inputs.length = 1
  input : r.input? 0 = some x
  size : x.encodedSize < 2 ^ 32
  unit : x.info.alignUnit < 2 ^ 31
  buffers : Buffers x.original x.encoded alloc

/-- The result of `EncodeInputs` is the buffer of the user. -/
def Redirected (m : ProcessMemory) (r : RequestData) (x : Input) (alloc : ℕ → Allocs) : Prop :=
  encodeInputs false alloc none m r = (EncodeState.redirect ⟨m, r, []⟩ 0 x, .returned 0)

/-- The input is the only one of the request. -/
structure OnlyInput (r : RequestData) (x : Input) : Prop where
  one : r.inputs.length = 1
  input : r.input? 0 = some x

/-- One input goes through the loop once. -/
theorem encodeInputs_only {r : RequestData} {x : Input} {alloc : ℕ → Allocs} (h : OnlyInput r x)
    (hdata : x.tensor.data ≠ 0) : encodeInputs false alloc none m r =
      match EncodeState.encodeTensor ⟨m, r, []⟩ 0 x (alloc 0) with
      | none => (⟨m, r, []⟩, .ended)
      | some s => (s, .returned 0) := by
  have hinput := h.input
  have hinfos : 1 ≤ r.npuInputTensorInfos.length := by
    by_contra hnone
    have hnil := List.length_eq_zero_iff.mp (by omega : r.npuInputTensorInfos.length = 0)
    simp [RequestData.input?, hnil] at hinput
  have hsizes : 1 ≤ r.encodedInputSizes.length := by
    by_contra hnone
    have hnil := List.length_eq_zero_iff.mp (by omega : r.encodedInputSizes.length = 0)
    simp [RequestData.input?, hnil] at hinput
  have hone := h.one
  simp only [encodeInputs, Bool.false_eq_true, if_false, hone, one_ne_zero]
  rw [if_neg (by omega), List.range_one, encodeLoop, hinput]
  simp only [reduceCtorEq, if_false, if_neg hdata]
  cases EncodeState.encodeTensor ⟨m, r, []⟩ 0 x (alloc 0) <;> rfl

theorem encodeInputs_one {r : RequestData} {x : Input} {alloc : ℕ → Allocs}
    (h : OneInput r x (alloc 0).encoder) : encodeInputs false alloc none m r =
      match EncodeState.encodeTensor ⟨m, r, []⟩ 0 x (alloc 0) with
      | none => (⟨m, r, []⟩, .ended)
      | some s => (s, .returned 0) :=
  encodeInputs_only ⟨h.one, h.input⟩ h.buffers.source

/-- An encoder leaves a code behind. -/
theorem not_redirected_of_codes {r : RequestData} {x : Input} {alloc : ℕ → Allocs}
    (h : OneInput r x (alloc 0).encoder)
    (hs : ∀ s ∈ EncodeState.encodeTensor ⟨m, r, []⟩ 0 x (alloc 0), s.codes ≠ []) :
    ¬ Redirected m r x alloc := by
  intro hr
  rw [Redirected, encodeInputs_one h] at hr
  cases hencode : EncodeState.encodeTensor ⟨m, r, []⟩ 0 x (alloc 0) with
  | none =>
    rw [hencode] at hr
    have hended : EncodeOutcome.ended = .returned 0 := congrArg Prod.snd hr
    cases hended
  | some s =>
    rw [hencode] at hr
    have heq : s = EncodeState.redirect ⟨m, r, []⟩ 0 x := congrArg Prod.fst hr
    exact hs s hencode (by rw [heq]; rfl)

/-- Where the encoder cannot be skipped, it is run, or the input is copied as it is. -/
theorem codes_of_not_skip {r : RequestData} {x : Input} {alloc : Allocs} {s : EncodeState}
    (hskip : r.canSkipInputCopy x = false)
    (hs : s ∈ EncodeState.encodeTensor ⟨m, r, []⟩ 0 x alloc) :
    s.codes ≠ [] ∨ ∀ encoder ∈ x.encoder? alloc.encoder, Identity encoder x.original := by
  rw [EncodeState.encodeTensor] at hs
  rw [Input.encoder?]
  generalize x.info.layout = layout at hs ⊢
  generalize x.info.transpose = transpose at hs ⊢
  cases layout with
  | preFormatter =>
    simp only [hskip, Bool.false_eq_true, if_false, Option.mem_some_iff] at hs
    exact Or.inl (by rw [← hs]; exact List.cons_ne_nil _ _)
  | preIm2col =>
    simp only [hskip, Bool.false_eq_true, if_false, Option.mem_def, Option.bind_eq_bind,
      Option.bind_eq_some_iff, Option.some.injEq] at hs
    obtain ⟨width, -, channel, -, rfl⟩ := hs
    exact Or.inl (List.cons_ne_nil _ _)
  | formatted | aligned =>
    cases transpose with
    | none =>
      simp only [hskip, Bool.false_eq_true, if_false, Option.mem_def, Option.bind_eq_bind,
        Option.bind_eq_some_iff, Option.some.injEq] at hs
      obtain ⟨channel, -, rfl⟩ := hs
      exact Or.inl (List.cons_ne_nil _ _)
    | channelFirstToLast => exact Or.inr fun encoder hencoder => absurd hencoder (Option.not_mem_none _)
    | channelLastToFirst =>
      refine Or.inr fun encoder hencoder => ?_
      rw [Option.mem_some_iff] at hencoder
      exact hencoder ▸ memcpy_identity x.original x.encoded
  | none | ppuYolo | ppuFd | ppuPose =>
    refine Or.inr fun encoder hencoder => ?_
    rw [Option.mem_some_iff] at hencoder
    exact hencoder ▸ memcpy_identity x.original x.encoded

/-- An encoder that can be skipped is skipped, unless the input is transposed. -/
theorem redirected_of_skip {r : RequestData} {x : Input} {alloc : ℕ → Allocs}
    (h : OneInput r x (alloc 0).encoder) (hskip : r.canSkipInputCopy x = true)
    (hencoder : x.encoder? (alloc 0).encoder ≠ none) : Redirected m r x alloc := by
  rw [Redirected, encodeInputs_one h, EncodeState.encodeTensor]
  rw [Input.encoder?] at hencoder
  generalize x.info.layout = layout at hencoder ⊢
  generalize x.info.transpose = transpose at hencoder ⊢
  cases layout with
  | formatted | aligned =>
    cases transpose with
    | channelFirstToLast => exact absurd rfl hencoder
    | none | channelLastToFirst => simp only [hskip, if_true]
  | preFormatter | preIm2col | none | ppuYolo | ppuFd | ppuPose => simp only [hskip, if_true]

/-- The buffer of the user is taken in the place of what the encoder would have produced exactly if
    the sizes are equal, whereas it holds the same bytes exactly if the encoder is neutral. -/
theorem shortcut_identity_iff {r : RequestData} {x : Input} {alloc : ℕ → Allocs}
    (h : OneInput r x (alloc 0).encoder) :
    (∀ m, Redirected m r x alloc → ∀ encoder ∈ x.encoder? (alloc 0).encoder,
      (encoder m).ret = 0 → SameBytes (encoder m).memory (encoder m).output m x.original) ↔
    (r.canSkipInputCopy x = true → x.Neutral (alloc 0).encoder) := by
  have hsize : x.original.size < 2 ^ 32 := Nat.mod_lt _ (by norm_num)
  have hneutral : r.canSkipInputCopy x = true →
      ((∀ encoder ∈ x.encoder? (alloc 0).encoder, Identity encoder x.original) ↔
        x.Neutral (alloc 0).encoder) := fun hskip => by
    have hequal : x.tensor.sizeInBytes = x.encodedSize := (of_decide_eq_true hskip).2
    refine neutral_iff hsize h.unit h.buffers ?_
    rw [Input.original, hequal]
    exact Nat.mod_le _ _
  constructor
  · intro hall hskip
    rw [← hneutral hskip]
    intro encoder hencoder m
    refine hall m (redirected_of_skip h hskip fun hnone => ?_) encoder hencoder
    rw [hnone] at hencoder
    cases hencoder
  · intro hcond m hred encoder hencoder
    cases hskip : r.canSkipInputCopy x with
    | true => exact (hneutral hskip).mpr (hcond hskip) encoder hencoder m
    | false =>
      by_contra hdiffer
      refine not_redirected_of_codes h (fun s hs => ?_) hred
      rcases codes_of_not_skip hskip hs with hcodes | hidentity
      · exact hcodes
      · exact absurd (hidentity encoder hencoder m) hdiffer

/-- A request with one input. -/
def oneInputRequest (size encodedSize : ℕ) (info : TensorInfo) : RequestData where
  inputs := [⟨size, 4096⟩]
  outputs := 1
  encodedInputsPtr := 8192
  encodedInputPtrs := [8192]
  npuInputTensorInfos := [info]
  encodedInputSizes := [encodedSize]

/-- Three rows, each twice as long as the unit. -/
theorem shortcut_identity_three_rows :
    let x : Input := ⟨⟨24, 4096⟩, ⟨.preFormatter, .none, [3, 8], .uint8, 4⟩, 24, 8192⟩
    ∀ m, Redirected m (oneInputRequest 24 24 x.info) x (fun _ => ⟨false, false⟩) →
      ∀ encoder ∈ x.encoder? false, (encoder m).ret = 0 →
        SameBytes (encoder m).memory (encoder m).output m x.original := by
  intro x
  have hx : OneInput (oneInputRequest 24 24 x.info) x false :=
    ⟨rfl, rfl, by decide, by decide, by decide, by decide, by decide, nofun, fun _ => by decide⟩
  exact (@shortcut_identity_iff (oneInputRequest 24 24 x.info) x (fun _ => ⟨false, false⟩) hx).mpr
    fun _ _ => Or.inr ⟨by decide, Or.inr (by decide)⟩

/-- Two rows of two columns in groups of one column: the sizes are equal, the order is not. -/
theorem shortcut_loses_order :
    let x : Input := ⟨⟨4, 4096⟩, ⟨.formatted, .none, [2, 2], .uint8, 1⟩, 4, 8192⟩
    let m : ProcessMemory := fun a => UInt8.ofNat a
    Redirected m (oneInputRequest 4 4 x.info) x (fun _ => ⟨false, false⟩) ∧
      ∃ encoder ∈ x.encoder? false, (encoder m).ret = 0 ∧
        ¬ SameBytes (encoder m).memory (encoder m).output m x.original := by
  intro x m
  refine ⟨rfl, _, rfl, by decide, fun h => ?_⟩
  have hbyte := h.2 1 (by decide)
  revert hbyte
  decide

end DxRt.NpuFormatHandler
