import DxRt.Format.Rows

/-! lib/npu_format_handler.cpp: columns in groups.

    Into another buffer, `encode_formatted` writes the groups one after the other. In place it clears
    the buffer before it makes the copy of the input, so that only zeros are left. -/

namespace DxRt.NpuFormatHandler
open Blocks Stores

variable {m : ProcessMemory} {input output : Bytes} {row size col unit g i : ℕ} {alloc : Bool}

/-- The number of groups. -/
def groups (col unit : ℕ) : ℕ := (col + unit - 1) / unit

theorem groups_mul (col unit : ℕ) : groups col unit * unit = alignUp col unit := rfl

theorem groups_total (row col unit : ℕ) :
    groups col unit * (row * unit) = row * alignUp col unit := by
  rw [Nat.mul_left_comm, groups_mul]

theorem lt_of_group (hunit : 0 < unit) (hg : g < groups col unit) : g * unit < col := by
  have hle : (g + 1) * unit ≤ groups col unit * unit := Nat.mul_le_mul_right _ hg
  have hlt := alignUp_lt col hunit
  rw [groups_mul, Nat.add_mul, Nat.one_mul] at hle
  omega

theorem group_lt {j : ℕ} (hunit : 0 < unit) (hj : g * unit + j < col) : g < groups col unit := by
  have hle := le_alignUp col hunit
  rw [← groups_mul] at hle
  exact Nat.lt_of_mul_lt_mul_right (a := unit) (by omega)

/-! ### The copies -/

/-- A group has `unit` columns, the last one perhaps fewer. -/
theorem copySize_eq (hunit : 0 < unit) (hwidth : col + unit ≤ 2 ^ 31) (hg : g < groups col unit) :
    copySize col unit g = (min (col - g * unit) unit : ℕ) := by
  have hlt := lt_of_group hunit hg
  have hmul : toInt32 ((g : ℤ) * unit) = (g * unit : ℕ) := by
    rw [← Nat.cast_mul, toInt32_natCast (by omega)]
  have hrest : toInt32 ((col : ℤ) - (g * unit : ℕ)) = (col - g * unit : ℕ) := by
    rw [← Nat.cast_sub hlt.le, toInt32_natCast (by omega)]
  simp only [copySize, hmul, hrest]
  split_ifs <;> omega

theorem srcAddr_eq (h : i * col + g * unit < 2 ^ 64) : srcAddr col unit g i = i * col + g * unit := by
  rw [srcAddr, ← Nat.cast_mul, ← Nat.cast_mul, ← Nat.cast_add, toSize_natCast h]

theorem dstAddr_eq (h : g * (row * unit) + i * unit < 2 ^ 64) :
    dstAddr row unit g i = g * (row * unit) + i * unit := by
  rw [dstAddr, mul_assoc, ← Nat.cast_mul, ← Nat.cast_mul, ← Nat.cast_mul, ← Nat.cast_add,
    toSize_natCast h]

/-- While every copy is inside the buffers, the loops do not stop. -/
theorem copyGroups_eq {source : ProcessMemory → ℕ → UInt8} {expectedSize data : ℕ}
    {row col unit : ℤ} : ∀ {l : List (ℕ × ℕ)} {m : ProcessMemory},
    (∀ p ∈ l, 0 < copySize col unit p.1 →
      InBuffers size expectedSize row col unit p.1 p.2) →
    copyGroups source size expectedSize data row col unit l m =
      (replay (copies (fun m p k => source m (srcAddr col unit p.1 p.2 + k))
        (fun p => data + dstAddr row unit p.1 p.2) (fun p => (copySize col unit p.1).toNat) l) m, 0)
  | [], m, _ => rfl
  | (g, i) :: l, m, h => by
    obtain ⟨hp, hl⟩ := List.forall_mem_cons.mp h
    rw [copyGroups]
    by_cases hnone : copySize col unit g ≤ 0
    · rw [if_pos hnone, copyGroups_eq hl, copies, copies, List.map_cons, replay_cons]
      congr 2
      funext a
      refine (Store.run_of_not_covers fun hc => ?_).symm
      simp only [Store.Covers, Int.toNat_of_nonpos hnone] at hc
      omega
    · rw [if_neg hnone, if_neg (not_not.mpr (hp (not_le.mp hnone))), copyGroups_eq hl]
      rfl

theorem mem_groupRows {p : ℕ × ℕ} (hcol : 1 ≤ col) (hunit : 1 ≤ unit)
    (hwidth : col + unit ≤ 2 ^ 31) :
    p ∈ groupRows col unit row ↔ p.1 < groups col unit ∧ p.2 < row := by
  rw [groupRows, cdiv_eq hcol hunit hwidth, List.mem_product, List.mem_range, List.mem_range,
    Int.toNat_natCast, Int.toNat_natCast]
  rfl

/-- The sizes of the copies, and where they come from and go to. -/
structure Copy (row col unit g i : ℕ) : Prop where
  size : copySize col unit g = (min (col - g * unit) unit : ℕ)
  source : srcAddr col unit g i = i * col + g * unit
  target : dstAddr row unit g i = g * (row * unit) + i * unit
  first : g * unit < col
  sourceEnd : i * col + col ≤ row * col
  targetEnd : g * (row * unit) + i * unit + unit ≤ row * alignUp col unit

theorem copy_of_mem (hunit : 1 ≤ unit) (hwidth : col + unit ≤ 2 ^ 31)
    (htotal : row * alignUp col unit < 2 ^ 32) (hg : g < groups col unit) (hi : i < row) :
    Copy row col unit g i := by
  have hfirst := lt_of_group hunit hg
  have hle : row * col ≤ row * alignUp col unit :=
    Nat.mul_le_mul_left _ (le_alignUp col hunit)
  have hsource : i * col + (col - 1) < row * col := place_lt hi (by omega)
  have hplace : i * unit + (unit - 1) < row * unit := place_lt hi (by omega)
  have htarget : g * (row * unit) + (i * unit + (unit - 1)) < groups col unit * (row * unit) :=
    place_lt hg hplace
  rw [groups_total] at htarget
  exact ⟨copySize_eq hunit hwidth hg, srcAddr_eq (by omega), dstAddr_eq (by omega), hfirst,
    by omega, by omega⟩

/-- The loops after the destination has been cleared. -/
theorem copyGroups_writes {source : ProcessMemory → ℕ → UInt8} {x : ℕ → UInt8} {data : ℕ}
    (hcol : 1 ≤ col) (hunit : 1 ≤ unit) (hwidth : col + unit ≤ 2 ^ 31)
    (htotal : row * alignUp col unit < 2 ^ 32) (hsize : size = row * col)
    (hreads : Reads source m data (row * alignUp col unit) size x) :
    ∃ m', copyGroups source size (row * alignUp col unit) data row col unit
        (groupRows col unit row) (m.memset data 0 (row * alignUp col unit)) = (m', 0) ∧
      Writes m m' data (row * alignUp col unit) (group row col unit x) := by
  have hcopy : ∀ p ∈ groupRows col unit row, Copy row col unit p.1 p.2 := fun p hp => by
    obtain ⟨hg, hi⟩ := (mem_groupRows hcol hunit hwidth).mp hp
    exact copy_of_mem hunit hwidth htotal hg hi
  have hle : row * col ≤ row * alignUp col unit :=
    Nat.mul_le_mul_left _ (le_alignUp col hunit)
  have hclear : Framed m data (row * alignUp col unit)
      (m.memset data 0 (row * alignUp col unit)) :=
    (Framed.refl m data _).run (s := clear data (row * alignUp col unit)) fun a ha => ha
  refine ⟨_, copyGroups_eq fun p hp _ => ?_, writes_of_settled ?_ ?_ hclear fun p hp => ?_⟩
  · have hp := hcopy p hp
    have hfirst := hp.first
    have hsource := hp.sourceEnd
    have htarget := hp.targetEnd
    rw [InBuffers, hp.size, hp.source, hp.target, ← Nat.cast_add, ← Nat.cast_add,
      toSize_natCast (by omega), toSize_natCast (by omega)]
    omega
  · intro s hs a ⟨ha, ha'⟩
    obtain ⟨p, hp, rfl⟩ := List.mem_map.mp hs
    have hp := hcopy p hp
    have htarget := hp.targetEnd
    simp only [hp.target, hp.size, Int.toNat_natCast] at ha ha'
    omega
  · intro s hs m' hm' a ⟨ha, ha'⟩
    obtain ⟨⟨g, i⟩, hp, rfl⟩ := List.mem_map.mp hs
    obtain ⟨-, hi⟩ := (mem_groupRows hcol hunit hwidth).mp hp
    have hp := hcopy _ hp
    have hsource : i * col + col ≤ row * col := hp.sourceEnd
    simp only [hp.target, hp.size, Int.toNat_natCast] at ha ha'
    obtain ⟨j, rfl⟩ : ∃ j, a = data + (g * (row * unit) + (i * unit + j)) :=
      ⟨a - (data + (g * (row * unit) + i * unit)), by omega⟩
    simp only [hp.target, hp.source, Nat.add_sub_cancel_left]
    rw [group_at x hi (by omega), if_pos (by omega)]
    have hoffset : data + (g * (row * unit) + (i * unit + j)) -
        (data + (g * (row * unit) + i * unit)) = j := by omega
    rw [hoffset, hreads m' hm' _ (by omega), Nat.add_assoc]
  · obtain ⟨g, hg, i, hi, j, hj, rfl⟩ := exists_place (groups_total row col unit ▸ hp)
    by_cases hdata : g * unit + j < col
    · refine Or.inl ⟨_, List.mem_map_of_mem (a := (g, i))
        ((mem_groupRows hcol hunit hwidth).mpr ⟨hg, hi⟩), ?_⟩
      have hcopy := copy_of_mem hunit hwidth htotal hg hi
      simp only [Store.Covers, hcopy.target, hcopy.size, Int.toNat_natCast]
      omega
    · refine Or.inr ?_
      rw [group_at x hi hj, if_neg hdata]
      exact if_pos ⟨by omega, by omega⟩

/-! ### encode_formatted -/

/-- The groups of what the source reads are written; in place, the source has been cleared. -/
theorem encodeFormatted_writes (h : RowSizes input.size col unit)
    (hbuf : Buffers input output alloc)
    (hroom : input.size / col * alignUp col unit ≤ output.size) :
    ∃ m', encodeFormatted m input output col unit alloc =
        ⟨m', ⟨input.size / col * alignUp col unit, output.data⟩, 0⟩ ∧
      Writes m m' output.data (input.size / col * alignUp col unit)
        (if input.data = output.data then fun _ => 0
          else group (input.size / col) col unit (bytesAt m input)) := by
  have hunit := h.unitPos
  have hsize : input.size = input.size / col * col := (Nat.div_mul_cancel h.whole).symm
  have hexpected := expectedSize_eq h.colPos h.unitPos h.width h.rows h.total
  have hle : input.size / col * col ≤ input.size / col * alignUp col unit :=
    Nat.mul_le_mul_left _ (le_alignUp col hunit)
  have hwrites : ∀ {source : ProcessMemory → ℕ → UInt8} {x : ℕ → UInt8},
      Reads source m output.data (input.size / col * alignUp col unit) input.size x →
      ∃ m', copyGroups source input.size (input.size / col * alignUp col unit) output.data
          (input.size / col : ℕ) col unit (groupRows col unit (input.size / col : ℕ))
          (m.memset output.data 0 (input.size / col * alignUp col unit)) = (m', 0) ∧
        Writes m m' output.data (input.size / col * alignUp col unit)
          (group (input.size / col) col unit x) :=
    copyGroups_writes h.colPos h.unitPos h.width h.total hsize
  rw [encodeFormatted]
  simp only
  rw [if_neg (by have := h.colPos; omega), if_neg hbuf.source]
  by_cases hempty : input.size = 0
  · rw [if_pos hempty, hempty, Nat.zero_div, Nat.zero_mul]
    exact ⟨m, rfl, fun p hp => absurd hp p.not_lt_zero, Framed.refl m _ _⟩
  rw [if_neg hempty, Int.toNat_natCast,
    if_neg (not_not.mpr (Nat.mod_eq_zero_of_dvd h.whole)), rows_eq h.rows, hexpected,
    if_neg hbuf.destination]
  by_cases hsame : input.data = output.data
  · have hzero : Reads (fun _ k => m.memset output.data 0 (input.size / col * alignUp col unit)
        (input.data + k)) m output.data (input.size / col * alignUp col unit) input.size
        fun _ => 0 := fun _ _ k hk => if_pos ⟨by omega, by omega⟩
    obtain ⟨m', hrun, hm'⟩ := hwrites hzero
    rw [if_pos hsame, if_neg (by rw [hbuf.memory hsame]; decide), if_pos hsame, hrun]
    refine ⟨m', rfl, fun p hp => ?_, hm'.frame⟩
    rw [hm'.bytes p hp, group, ite_self]
  · have hapart : Apart input ⟨input.size / col * alignUp col unit, output.data⟩ := by
      have hapart := hbuf.apart hsame
      simp only [Apart] at hapart ⊢
      omega
    obtain ⟨m', hrun, hm'⟩ := hwrites (reads_apart m hapart)
    rw [if_neg hsame, if_neg hsame, hrun]
    exact ⟨m', rfl, hm'⟩

/-- Byte `j` of group `g` of row `i` is at its place, and all other bytes of the output are zero. -/
def Grouped (m' : ProcessMemory) (data : ℕ) (row col unit : ℕ) (x : ℕ → UInt8) : Prop :=
  ∀ g < groups col unit, ∀ i < row, ∀ j < unit,
    m' (data + (g * row * unit + i * unit + j)) =
      if g * unit + j < col then x (i * col + (g * unit + j)) else 0

instance (m' : ProcessMemory) (data row col unit : ℕ) (x : ℕ → UInt8) :
    Decidable (Grouped m' data row col unit x) :=
  inferInstanceAs (Decidable (∀ g < groups col unit, ∀ i < row, ∀ j < unit, _))

theorem grouped_congr {m' : ProcessMemory} {data : ℕ} {f x : ℕ → UInt8} {n : ℕ}
    (h : Writes m m' data n f) (hn : n = row * alignUp col unit) :
    Grouped m' data row col unit x ↔ ∀ g < groups col unit, ∀ i < row, ∀ j < unit,
      f (g * (row * unit) + (i * unit + j)) =
        if g * unit + j < col then x (i * col + (g * unit + j)) else 0 := by
  have hplace : ∀ g < groups col unit, ∀ i < row, ∀ j < unit,
      m' (data + (g * row * unit + i * unit + j)) = f (g * (row * unit) + (i * unit + j)) := by
    intro g hg i hi j hj
    have hlt : g * (row * unit) + (i * unit + j) < groups col unit * (row * unit) :=
      place_lt hg (place_lt hi hj)
    rw [groups_total, ← hn] at hlt
    rw [← h.bytes _ hlt, Nat.mul_assoc, Nat.add_assoc]
  rw [Grouped]
  constructor
  · intro hall g hg i hi j hj
    rw [← hplace g hg i hi j hj]
    exact hall g hg i hi j hj
  · intro hall g hg i hi j hj
    rw [hplace g hg i hi j hj]
    exact hall g hg i hi j hj

/-- `encode_formatted` groups the columns exactly if it works in another buffer, or all bytes are
    zero anyway. -/
theorem encode_formatted_grouped_iff {x y : Bytes} (h : SmallRows x.size col unit)
    (hbuf : Buffers x y alloc) (hroom : x.size / col * alignUp col unit = y.size) :
    let e := encodeFormatted m x y col unit alloc
    (e.ret = 0 ∧ e.output = y ∧ Framed m y.data y.size e.memory) ∧
    (Grouped e.memory y.data (x.size / col) col unit (bytesAt m x) ↔
      x.data ≠ y.data ∨ ∀ k < x.size, m (x.data + k) = 0) := by
  obtain ⟨m', he, hwrites⟩ := encodeFormatted_writes (m := m) h.rowSizes hbuf hroom.le
  have hunit : 0 < unit := h.unitPos
  simp only [he]
  refine ⟨⟨trivial, by rw [hroom], hroom ▸ hwrites.frame⟩, ?_⟩
  rw [grouped_congr hwrites rfl]
  by_cases hsame : x.data = y.data
  · simp only [hsame, if_pos, ne_eq, not_true, false_or]
    constructor
    · intro hall k hk
      have hk' := Nat.div_add_mod' k col
      have hrow : k / col < x.size / col := Nat.div_lt_div_of_lt_of_dvd h.whole hk
      have hrest : k % col / unit * unit + k % col % unit < col := by
        rw [Nat.div_add_mod']
        exact Nat.mod_lt k h.colPos
      have hg := group_lt hunit hrest
      have hbyte := hall _ hg _ hrow _ (Nat.mod_lt (k % col) hunit)
      rw [if_pos hrest, Nat.div_add_mod', hk', bytesAt, hsame] at hbyte
      exact hbyte.symm
    · intro hzero g hg i hi j hj
      split_ifs with hdata
      · have hplace : i * col + (g * unit + j) < x.size / col * col := place_lt hi hdata
        rw [Nat.div_mul_cancel h.whole] at hplace
        rw [bytesAt, hsame, hzero _ hplace]
      · rfl
  · simp only [hsame, if_false, ne_eq, not_false_eq_true, true_or, iff_true]
    intro g hg i hi j hj
    exact group_at _ hi hj

/-- Three rows of five bytes are encoded into another buffer. -/
theorem encode_formatted_grouped_three_rows :
    Grouped (encodeFormatted (fun a => UInt8.ofNat a) ⟨15, 4096⟩ ⟨24, 8192⟩ 5 4 false).memory 8192
      3 5 4 (bytesAt (fun a => UInt8.ofNat a) ⟨15, 4096⟩) :=
  (@encode_formatted_grouped_iff (fun a => UInt8.ofNat a) 5 4 false ⟨15, 4096⟩ ⟨24, 8192⟩
    ⟨by decide, by decide, by decide, by decide, by decide⟩
    ⟨by decide, by decide, by decide, nofun, fun _ => by decide⟩ rfl).2.mpr (Or.inl (by decide))

/-- One byte, in place: it is cleared before it is copied. -/
theorem encode_formatted_loses_input :
    let e := encodeFormatted (fun _ => 7) ⟨1, 4096⟩ ⟨1, 4096⟩ 1 1 true
    e.ret = 0 ∧ e.memory 4096 = 0 ∧
      ¬ Grouped e.memory 4096 1 1 1 (bytesAt (fun _ => 7) ⟨1, 4096⟩) := by
  intro e
  decide

end DxRt.NpuFormatHandler
