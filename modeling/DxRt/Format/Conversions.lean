import DxRt.Format.Transposed

/-! lib/npu_format_handler.cpp: where the conversions write.

    Each branch of `EncodeInputs` and `DecodeOutputs` is a few conversions into a buffer that is
    given with its size. `encode` and `decode` compare that size with a product of 32 bits, and
    `encode_formatted` with none; the copies take the size of the source, and the transpositions are
    not told any size. -/

namespace DxRt.NpuFormatHandler
open Blocks Stores

/-- What a branch calls, with the destination as it is given. -/
inductive Conversion where
  | encode (input output : Bytes) (col unit : ℤ) (alloc : Bool)
  | encodeFormatted (input output : Bytes) (channel alignUnit : ℤ) (alloc : Bool)
  | decode (input output : Bytes) (col unit : ℤ) (alloc : Bool)
  | plainCopy (input output : Bytes)
  | transpose (src : ℕ) (output : Bytes) (row col : ℤ) (elementSize : ℕ) (alloc : Bool)

namespace Conversion
variable {c : Conversion} {m : ProcessMemory}

def output : Conversion → Bytes
  | .encode _ output _ _ _ | .encodeFormatted _ output _ _ _ | .decode _ output _ _ _ => output
  | .plainCopy _ output => output
  | .transpose _ output _ _ _ _ => output

/-- The memory afterwards. -/
def run (m : ProcessMemory) : Conversion → ProcessMemory
  | .encode input output col unit alloc =>
    (NpuFormatHandler.encode m input output col unit alloc).memory
  | .encodeFormatted input output channel alignUnit alloc =>
    (NpuFormatHandler.encodeFormatted m input output channel alignUnit alloc).memory
  | .decode input output col unit alloc =>
    (NpuFormatHandler.decode m input output col unit alloc).memory
  | .plainCopy input output => m.memcpy output.data input.data input.size
  | .transpose src output row col elementSize alloc =>
    bidirectionalTranspose m src output.data row col elementSize alloc

theorem run_encode {input output : Bytes} {col unit : ℤ} {alloc : Bool} :
    (encode input output col unit alloc).run m =
      (NpuFormatHandler.encode m input output col unit alloc).memory := by rw [run]

theorem run_encodeFormatted {input output : Bytes} {channel alignUnit : ℤ} {alloc : Bool} :
    (encodeFormatted input output channel alignUnit alloc).run m =
      (NpuFormatHandler.encodeFormatted m input output channel alignUnit alloc).memory := by rw [run]

theorem run_decode {input output : Bytes} {col unit : ℤ} {alloc : Bool} :
    (decode input output col unit alloc).run m =
      (NpuFormatHandler.decode m input output col unit alloc).memory := by rw [run]

theorem run_plainCopy {input output : Bytes} :
    (plainCopy input output).run m = m.memcpy output.data input.data input.size := by rw [run]

theorem run_transpose {src : ℕ} {output : Bytes} {row col : ℤ} {elementSize : ℕ} {alloc : Bool} :
    (transpose src output row col elementSize alloc).run m =
      bidirectionalTranspose m src output.data row col elementSize alloc := by rw [run]

/-- The code; a copy and a transposition report no error. -/
def ret (m : ProcessMemory) : Conversion → ℤ
  | .encode input output col unit alloc =>
    (NpuFormatHandler.encode m input output col unit alloc).ret
  | .encodeFormatted input output channel alignUnit alloc =>
    (NpuFormatHandler.encodeFormatted m input output channel alignUnit alloc).ret
  | .decode input output col unit alloc =>
    (NpuFormatHandler.decode m input output col unit alloc).ret
  | .plainCopy _ _ | .transpose _ _ _ _ _ _ => 0

/-- The conversion goes through with its arguments. -/
def Accepts : Conversion → Prop
  | .encode input output col unit alloc => Fits input output col unit alloc
  | .encodeFormatted input output channel alignUnit alloc =>
    FormattedFits input output channel alignUnit alloc
  | .decode input output col unit alloc => DecodeFits input output col unit alloc
  | .plainCopy _ _ => True
  | .transpose src output row col elementSize alloc =>
    TransposeFits src output.data row col elementSize alloc

/-- The stores of a conversion that goes through. -/
def stores (m : ProcessMemory) : Conversion → List (Store UInt8)
  | .encode input output col unit _ => encodeStores m input output col unit
  | .encodeFormatted input output channel alignUnit _ =>
    formattedStores m input output channel alignUnit
  | .decode input output col unit _ => decodeStores m input output col unit
  | .plainCopy input output => copies (fun m (_ : Unit) k => m (input.data + k))
      (fun _ => output.data) (fun _ => input.size) [()]
  | .transpose src output row col elementSize _ =>
    transposeStores m src output.data row col elementSize

/-- The numbers of a conversion are of the type `int`. -/
def Ints : Conversion → Prop
  | .encode _ _ col unit _ | .encodeFormatted _ _ col unit _ | .decode _ _ col unit _ =>
    col < 2 ^ 31 ∧ unit < 2 ^ 31
  | .plainCopy _ _ => True
  | .transpose _ _ row col _ _ => row < 2 ^ 31 ∧ col < 2 ^ 31

/-- What the types of the source promise of sizes, addresses and numbers. -/
structure Typed (c : Conversion) : Prop where
  size : c.output.size < 2 ^ 32
  space : c.output.data + c.output.size ≤ 2 ^ 64
  numbers : c.Ints

theorem run_eq (h : c.Accepts) : c.run m = replay (c.stores m) m := by
  cases c with
  | encode => simp only [run, encode_eq h, stores]
  | encodeFormatted => simp only [run, encodeFormatted_eq h, stores]
  | decode => simp only [run, decode_eq h, stores]
  | plainCopy => rfl
  | transpose => exact bidirectionalTranspose_eq h

/-- What does not go through is an error, or a transposition that does nothing. -/
theorem refused (hc : c.Typed) (h : ¬ c.Accepts) : c.ret m ≠ 0 ∨ c.run m = m := by
  cases c with
  | encode => exact Or.inl (mt (encode_ret ..).accepted h)
  | encodeFormatted => exact Or.inl (mt (encodeFormatted_ret ..).accepted h)
  | decode => exact Or.inl (mt (decode_ret ..).accepted h)
  | plainCopy => exact absurd trivial h
  | transpose => exact Or.inr (bidirectionalTranspose_refused hc.numbers.1 hc.numbers.2 h)

/-- What goes through is written inside the destination only. -/
def Inside (c : Conversion) : Prop :=
  c.Accepts → ∀ m, Within (c.stores m) c.output.data c.output.size

/-- Then nothing outside of the destination is changed, unless an error is reported. -/
theorem Inside.framed (h : c.Inside) (hc : c.Typed) (m : ProcessMemory) :
    c.ret m ≠ 0 ∨ Framed m c.output.data c.output.size (c.run m) := by
  by_cases ha : c.Accepts
  · rw [run_eq ha]
    exact Or.inr fun a hout => replay_frame (h ha m) hout
  · refine (refused hc ha).imp_right fun hrun => ?_
    rw [hrun]
    exact Framed.refl m _ _

/-! ### Where the stores are -/

/-- A row of the output, wherever it may start. -/
theorem row_within {data size width : ℕ} {z : ℤ} {bytes : ProcessMemory → ℕ → UInt8}
    (hwidth : 0 < width) (hsize : size < 2 ^ 32) (hspace : data + size ≤ 2 ^ 64)
    (hz : -2 ^ 62 ≤ z ∧ z ≤ 2 ^ 62) :
    (⟨toSize (data + z), width, bytes⟩ : Store UInt8).Within data size ↔
      0 ≤ z ∧ z + width ≤ size := by
  rw [Store.within_iff]
  simp only [toSize, HandleTable.toUint64]
  omega

/-- The last row decides. -/
theorem last_row {row wide width size : ℤ} :
    (∀ i : ℕ, i < row.toNat → 0 ≤ i * wide ∧ i * wide + width ≤ size) ↔
      row ≤ 0 ∨ 0 ≤ (row - 1) * wide ∧ (row - 1) * wide + width ≤ size := by
  constructor
  · intro h
    rcases le_or_gt row 0 with hnone | hsome
    · exact Or.inl hnone
    · have hlast := h (row - 1).toNat (by omega)
      rw [Int.toNat_of_nonneg (by omega)] at hlast
      exact Or.inr hlast
  · rintro (hnone | ⟨hlow, hhigh⟩) i hi
    · omega
    · rcases eq_or_lt_of_le (show 1 ≤ row by omega) with hone | hmore
      · obtain rfl : i = 0 := by omega
        rw [← hone] at hhigh
        simpa using hhigh
      · have hwide : 0 ≤ wide := nonneg_of_mul_nonneg_right hlow (by omega)
        have hle : (i : ℤ) * wide ≤ (row - 1) * wide := mul_le_mul_of_nonneg_right (by omega) hwide
        exact ⟨mul_nonneg (by omega) hwide, by omega⟩

theorem within_copies {ι : Type} {source : ProcessMemory → ι → ℕ → UInt8} {dst size : ι → ℕ}
    {l : List ι} {base n : ℕ} : Within (copies source dst size l) base n ↔
      ∀ i ∈ l, (⟨dst i, size i, fun m => source m i⟩ : Store UInt8).Within base n :=
  List.forall_mem_map

theorem clear_within {data size n : ℕ} : (clear data size).Within data n ↔ size ≤ n := by
  simp only [Store.within_iff, clear]
  omega

/-- `encode` compares the buffer with a product of 32 bits; its rows end where they end. -/
theorem encode_within {input output : Bytes} {col unit : ℤ} {alloc : Bool}
    (h : Fits input output col unit alloc) (hsize : output.size < 2 ^ 32)
    (hspace : output.data + output.size ≤ 2 ^ 64) :
    Within (encodeStores m input output col unit) output.data output.size ↔
      input.data = output.data ∧ col = alignedCol col unit ∨ rows input.size col ≤ 0 ∨
      0 ≤ (rows input.size col - 1) * alignedCol col unit ∧
        (rows input.size col - 1) * alignedCol col unit + col ≤ output.size := by
  have hcol := h.colPos
  rw [encodeStores]
  split_ifs with hstay
  · exact ⟨fun _ => Or.inl hstay, fun _ => within_nil⟩
  rw [within_cons, clear_within, rowCopies, within_copies, ← last_row, or_iff_right hstay,
    and_iff_right h.room]
  simp only [List.mem_range]
  refine forall₂_congr fun i hi => ?_
  have hbounds : -2 ^ 62 ≤ (i : ℤ) * alignedCol col unit ∧ (i : ℤ) * alignedCol col unit ≤ 2 ^ 62 :=
    rowOffset_bounds _ hi (rows_lt _ _) (toInt32_bounds _)
  rw [row_within (by omega) hsize hspace hbounds, Int.toNat_of_nonneg hcol.le]

/-- `encode_formatted` clears the output that it is going to make, whatever the buffer is; its copies
    are inside of that. -/
theorem encodeFormatted_within {input output : Bytes} {col unit : ℤ} {alloc : Bool}
    (h : FormattedFits input output col unit alloc) (hcol : col < 2 ^ 31) (hunit : unit < 2 ^ 31) :
    Within (formattedStores m input output col unit) output.data output.size ↔
      input.size = 0 ∨ expectedSize input.size col unit ≤ output.size := by
  rw [formattedStores]
  split_ifs with hempty
  · exact ⟨fun _ => Or.inl hempty, fun _ => within_nil⟩
  rw [within_cons, clear_within, groupCopies, within_copies, or_iff_right hempty]
  refine and_iff_left_of_imp fun hroom p hp => ?_
  obtain ⟨g, i⟩ := p
  have hinside := h.copies hempty (g, i) hp
  have hrow := rows_lt input.size col
  have hsource := h.channelPos
  have hunitPos := h.unitPos
  generalize rows input.size col = row at hp hinside hrow
  generalize expectedSize input.size col unit = expected at hroom hinside
  rw [Store.within_iff]
  by_cases hcopy : 0 < copySize col unit g
  · have hinside := hinside hcopy
    rw [inBuffers_iff ⟨hsource, hcol⟩ ⟨hunitPos, hunit⟩ hrow hp hcopy] at hinside
    exact Or.inr ⟨Nat.le_add_right _ _, by simp only; omega⟩
  · exact Or.inl (by simp only; omega)

/-- In place, `decode` computes the addresses of the rows as `int`. -/
theorem decode_within {input output : Bytes} {col unit : ℤ} {alloc : Bool}
    (h : DecodeFits input output col unit alloc) (hcol : col < 2 ^ 31)
    (hsize : output.size < 2 ^ 32) (hspace : output.data + output.size ≤ 2 ^ 64) :
    Within (decodeStores m input output col unit) output.data output.size ↔
      input.size = 0 ∨ input.data ≠ output.data ∨ col = alignedCol col unit ∨
        (decodedRows input.size (alignedCol col unit) - 1) * col < 2 ^ 31 := by
  have hpos := h.colPos
  rw [decodeStores]
  split_ifs with hstay
  · exact ⟨fun _ => hstay.imp_right fun h => Or.inr (Or.inl h.2), fun _ => within_nil⟩
  obtain ⟨hempty, hmove⟩ := not_or.mp hstay
  have hroom := h.room hempty
  have hrows := h.copies hempty hmove
  have hlt : decodedRows input.size (alignedCol col unit) < 2 ^ 31 := (toInt32_bounds _).2
  generalize decodedRows input.size (alignedCol col unit) = row at hroom hrows hlt ⊢
  generalize decodedSize row col = expected at hroom hrows
  -- The check of a row is exact: nothing wraps around in 64 bits.
  have hplace : ∀ i < row.toNat, 0 ≤ (i : ℤ) * col ∧ (i : ℤ) * col ≤ 2 ^ 62 ∧
      i * col + col ≤ output.size := by
    intro i hi
    have hbounds := rowOffset_bounds row hi hlt ⟨by omega, hcol⟩
    have hnonneg : 0 ≤ (i : ℤ) * col := mul_nonneg (by omega) hpos.le
    have hcheck := (hrows i (List.mem_range.mpr hi)).1
    rw [toSize, HandleTable.toUint64] at hcheck
    exact ⟨hnonneg, hbounds.2, by omega⟩
  rw [within_copies]
  by_cases hsame : input.data = output.data
  · have hdense : col ≠ alignedCol col unit := fun heq => hmove ⟨hsame, heq⟩
    have htarget : backTarget input output col = fun i : ℕ => toSize (output.data + toInt32 (i * col)) :=
      funext fun i => by rw [backTarget, if_pos hsame]
    rw [htarget, or_iff_right hempty, or_iff_right (not_not.mpr hsame), or_iff_right hdense]
    simp only [List.mem_range]
    constructor
    · intro hin
      rcases le_or_gt row 0 with hnone | hsome
      · have hneg : (row - 1) * col ≤ 0 := mul_nonpos_of_nonpos_of_nonneg (by omega) hpos.le
        omega
      · have hlast := hin (row - 1).toNat (by omega)
        have hend := hplace (row - 1).toNat (by omega)
        rw [Int.toNat_of_nonneg (by omega)] at hlast hend
        have hbounds := toInt32_bounds ((row - 1) * col)
        have hlow := ((row_within (by omega) hsize hspace (by omega)).mp hlast).1
        rw [toInt32, Int.bmod_def] at hlow
        omega
    · intro hsmall i hi
      have hend := hplace i hi
      have hle : (i : ℤ) * col ≤ (row - 1) * col := mul_le_mul_of_nonneg_right (by omega) hpos.le
      rw [toInt32_of_bounds (by omega) (by omega), row_within (by omega) hsize hspace (by omega),
        Int.toNat_of_nonneg hpos.le]
      exact ⟨hend.1, hend.2.2⟩
  · have htarget : backTarget input output col = fun i : ℕ => toSize (output.data + i * col) :=
      funext fun i => by rw [backTarget, if_neg hsame]
    rw [htarget]
    refine ⟨fun _ => Or.inr (Or.inl hsame), fun _ i hi => ?_⟩
    have hend := hplace i (List.mem_range.mp hi)
    rw [row_within (by omega) hsize hspace (by omega), Int.toNat_of_nonneg hpos.le]
    exact ⟨hend.1, hend.2.2⟩

section
variable {src : ℕ} {row col : ℤ} {r c e size : ℕ}

/-- The elements of the transposed matrix are inside if its end is. -/
theorem elements_inside (he : 0 < e) (hsize : size < 2 ^ 64) :
    (∀ p ∈ cells row col, elementOffset row e p.2 p.1 + e ≤ size) ↔
      row.toNat * col.toNat * e ≤ size := by
  constructor
  · intro h
    by_contra hmore
    -- the element that contains the first byte behind the buffer
    have hk : size / e < row.toNat * col.toNat :=
      (Nat.div_lt_iff_lt_mul he).mpr (not_le.mp hmore)
    have hr : 0 < row.toNat := Nat.pos_of_mul_pos_right (Nat.zero_lt_of_lt hk)
    have hp := h (size / e % row.toNat, size / e / row.toNat)
      (mem_cells.mpr ⟨Nat.mod_lt _ hr, Nat.div_lt_of_lt_mul hk⟩)
    have hfloor := Nat.div_mul_le_self size e
    have hceil : size < size / e * e + e := Nat.lt_div_mul_add he
    simp only at hp
    rw [elementOffset_eq (by rw [Nat.div_add_mod']; omega), Nat.div_add_mod'] at hp
    omega
  · intro h p hp
    obtain ⟨hi, hj⟩ := mem_cells.mp hp
    have hle := element_le' (e := e) hi hj
    rw [elementOffset_eq (by omega)]
    omega

/-- The last element of a square stays where it is. -/
theorem exchanges_inside {n : ℤ} (he : 0 < e) (htotal : n.toNat * n.toNat * e < 2 ^ 64) :
    Within (exchanges src n e (aboveDiagonal n n) m) src size ↔
      (n.toNat * n.toNat - 1) * e ≤ size := by
  have hoffset : ∀ {i j : ℕ}, i < n.toNat → j < n.toNat →
      elementOffset n e i j = (i * n.toNat + j) * e := fun hi hj => by
    have hle := element_le (e := e) hi hj
    rw [elementOffset_eq (by omega)]
  rw [exchanges_within]
  constructor
  · intro h
    rcases le_or_gt n.toNat 1 with hone | hmore
    · have hnone : n.toNat * n.toNat - 1 = 0 :=
        Nat.sub_eq_zero_of_le (Nat.mul_le_mul hone hone)
      rw [hnone, Nat.zero_mul]
      exact Nat.zero_le _
    · obtain ⟨k, hk⟩ : ∃ k, n.toNat = k + 2 := ⟨n.toNat - 2, by omega⟩
      have hp := (h (k, k + 1) (mem_aboveDiagonal.mpr ⟨by simp only; omega, by simp only; omega,
        by simp only; omega⟩)).2.resolve_left he.ne'
      simp only at hp
      rw [hoffset (by omega) (by omega), hk] at hp
      have hlast : ((k + 2) * (k + 2) - 1) * e = ((k + 1) * (k + 2) + k) * e + e := by
        have hplace : (k + 2) * (k + 2) - 1 = (k + 1) * (k + 2) + k + 1 := by
          have hring : (k + 2) * (k + 2) = (k + 1) * (k + 2) + k + 1 + 1 := by ring
          omega
        rw [hplace, Nat.succ_mul]
      rw [hk, hlast]
      omega
  · intro h p hp
    obtain ⟨hi, hj, hlt⟩ := mem_aboveDiagonal.mp hp
    rw [hoffset hi hj, hoffset hj hi]
    have hbefore : ∀ k, k + 1 ≤ n.toNat * n.toNat - 1 → k * e + e ≤ size := fun k hk => by
      rw [← Nat.succ_mul]
      exact (Nat.mul_le_mul_right e hk).trans h
    have hupper : p.1 * n.toNat + p.2 + 1 ≤ n.toNat * n.toNat - 1 := by
      have hrow : (p.1 + 1) * n.toNat ≤ (n.toNat - 1) * n.toNat := Nat.mul_le_mul_right _ (by omega)
      rw [Nat.sub_one_mul, Nat.succ_mul] at hrow
      omega
    have hlower : p.2 * n.toNat + p.1 + 1 ≤ n.toNat * n.toNat - 1 := by
      have hrow : p.2 * n.toNat ≤ (n.toNat - 1) * n.toNat := Nat.mul_le_mul_right _ (by omega)
      rw [Nat.sub_one_mul] at hrow
      have hle : n.toNat ≤ n.toNat * n.toNat := Nat.le_mul_self _
      omega
    have hupper := hbefore _ hupper
    have hlower := hbefore _ hlower
    exact ⟨Or.inr ⟨by omega, by omega⟩, Or.inr ⟨by omega, by omega⟩⟩

/-- A transposition writes the whole matrix, but for the last element of a square in place. -/
theorem transpose_within {dst : ℕ} {alloc : Bool} (h : TransposeFits src dst row col e alloc)
    (hsize : size < 2 ^ 64) : Within (transposeStores m src dst row col e) dst size ↔
      (if src = dst ∧ row = col then row.toNat * col.toNat - 1 else row.toNat * col.toNat) * e ≤
        size := by
  have he := h.sizePos
  rw [transposeStores]
  by_cases hsame : src = dst
  · subst hsame
    rw [if_neg (not_not.mpr rfl)]
    by_cases hsquare : row = col
    · subst hsquare
      rw [if_pos rfl, if_pos ⟨rfl, rfl⟩]
      exact exchanges_inside he (h.total rfl)
    · rw [if_neg hsquare, if_neg fun h => hsquare h.2, within_cons, Store.within_iff,
        and_iff_left within_nil]
      simp only
      omega
  · rw [if_pos hsame, if_neg fun h => hsame h.1, elementCopies, within_copies,
      ← elements_inside he hsize]
    refine forall₂_congr fun p _ => ?_
    rw [Store.within_iff]
    simp only
    omega

end

/-- The sizes for which a conversion stays inside, if it goes through: the rows of `encode` end in the
    buffer, what `encode_formatted` clears is not larger than it, `decode` in place has no row from
    2^31 on, and a copy or a matrix is not larger than its destination. -/
def Fine : Conversion → Prop
  | .encode input output col unit alloc => Fits input output col unit alloc →
    input.data = output.data ∧ col = alignedCol col unit ∨ rows input.size col ≤ 0 ∨
      0 ≤ (rows input.size col - 1) * alignedCol col unit ∧
        (rows input.size col - 1) * alignedCol col unit + col ≤ output.size
  | .encodeFormatted input output channel alignUnit alloc =>
    FormattedFits input output channel alignUnit alloc →
      input.size = 0 ∨ expectedSize input.size channel alignUnit ≤ output.size
  | .decode input output col unit alloc => DecodeFits input output col unit alloc →
    input.size = 0 ∨ input.data ≠ output.data ∨ col = alignedCol col unit ∨
      (decodedRows input.size (alignedCol col unit) - 1) * col < 2 ^ 31
  | .plainCopy input output => input.size ≤ output.size
  | .transpose src output row col elementSize alloc =>
    TransposeFits src output.data row col elementSize alloc →
      (if src = output.data ∧ row = col then row.toNat * col.toNat - 1
        else row.toNat * col.toNat) * elementSize ≤ output.size

theorem inside_iff (hc : c.Typed) : c.Inside ↔ c.Fine := by
  have hall : ∀ {accepts : Prop} {stores : ProcessMemory → List (Store UInt8)} {p : Prop} {b : Bytes},
      (accepts → ∀ m, Within (stores m) b.data b.size ↔ p) →
      ((accepts → ∀ m, Within (stores m) b.data b.size) ↔ (accepts → p)) := fun hiff =>
    forall_congr' fun ha => ⟨fun h => (hiff ha fun _ => 0).mp (h fun _ => 0),
      fun h m => (hiff ha m).mpr h⟩
  obtain ⟨hsize, hspace, hnumbers⟩ := hc
  cases c with
  | encode input output col unit alloc => exact hall fun h m => encode_within h hsize hspace
  | encodeFormatted input output col unit alloc =>
    exact hall fun h m => encodeFormatted_within h hnumbers.1 hnumbers.2
  | decode input output col unit alloc =>
    exact hall fun h m => decode_within h hnumbers.1 hsize hspace
  | plainCopy input output =>
    have hcopy : (plainCopy input output).Inside ↔ (True → input.size ≤ output.size) :=
      hall fun _ m => ?_
    · exact hcopy.trans true_imp_iff
    · rw [stores, within_copies, List.forall_mem_singleton, Store.within_iff]
      simp only [Conversion.output]
      omega
  | transpose src output row col e alloc =>
    have hsize : output.size < 2 ^ 64 := hsize.trans (by norm_num)
    exact hall fun h m => transpose_within h hsize

end Conversion

/-! ### The branches -/

/-- The conversions of a branch, one after the other. -/
def runAll (l : List Conversion) (m : ProcessMemory) : ProcessMemory :=
  l.foldl (fun m c => c.run m) m

@[simp] theorem runAll_nil (m : ProcessMemory) : runAll [] m = m := rfl

@[simp] theorem runAll_cons (c : Conversion) (l : List Conversion) (m : ProcessMemory) :
    runAll (c :: l) m = runAll l (c.run m) := rfl

namespace EncodeState.Input

/-- What `EncodeInputs` does for an input that is not used in place. -/
def layoutConversions? (x : Input) (alloc : Allocs) : Option (List Conversion) :=
  match x.info.layout, x.info.transpose with
  | .preFormatter, _ => some [.encode x.original x.encoded (toInt32 x.original.size)
      x.info.alignUnit alloc.encoder]
  | .preIm2col, _ => do
    let width ← x.info.dim? 1
    let channel ← x.info.dim? 0
    some (if width ≤ 0 ∨ channel ≤ 0 then []
      else [.encode x.original x.encoded (toInt32 (width * channel)) x.info.alignUnit alloc.encoder])
  | .formatted, .none => do
    let channel ← x.info.dim? 0
    some [.encodeFormatted x.original x.encoded channel x.info.alignUnit alloc.encoder]
  | .formatted, .channelFirstToLast => do
    let channel ← x.info.dim? 0
    let elemSize ← dataSizeRmapinfo x.info.dtypeEncoded
    some [.encodeFormatted x.original x.encoded channel x.info.alignUnit alloc.encoder,
      .transpose x.encodedPtr x.encoded channel x.info.outerSize elemSize alloc.transpose]
  | .aligned, .none => do
    let channel ← x.info.dim? 0
    some [.encode x.original x.encoded (x.info.scale channel) (x.info.scale x.info.alignUnit)
      alloc.encoder]
  | .aligned, .channelFirstToLast => do
    let channel ← x.info.dim? 0
    let elemSize ← dataSizeRmapinfo x.info.dtypeEncoded
    some [.transpose x.tensor.data x.encoded channel x.info.outerSize elemSize alloc.transpose,
      .encode ⟨x.original.size, x.encodedPtr⟩ x.encoded (x.info.scale channel)
        (x.info.scale x.info.alignUnit) alloc.encoder]
  | _, _ => some [.plainCopy x.original x.encoded]

/-- A formatted or aligned input with channels first is never used in place. -/
def conversions? (x : Input) (skip : Bool) (alloc : Allocs) : Option (List Conversion) :=
  if skip = true ∧ ¬ (x.info.transpose = .channelFirstToLast ∧
      (x.info.layout = .formatted ∨ x.info.layout = .aligned)) then some []
  else x.layoutConversions? alloc

end EncodeState.Input

theorem encodePreformatter_memory (m : ProcessMemory) (input output : Bytes) (unit : ℤ) (alloc : Bool) :
    (encodePreformatter m input output unit alloc).memory =
      runAll [.encode input output (toInt32 input.size) unit alloc] m := by
  have hnone : ∀ col ≤ 0, (encode m input output col unit alloc).memory = m := fun col hcol => by
    rw [encode, if_pos (Or.inl hcol)]
  rw [encodePreformatter, runAll_cons, runAll_nil, Conversion.run_encode]
  generalize toInt32 input.size = col
  split_ifs with hempty hcol
  · exact (hnone col hempty.1.le).symm
  · exact (hnone col hcol).symm
  · rfl

theorem encodePreim2col_memory (m : ProcessMemory) (input output : Bytes) (width channel unit : ℤ)
    (alloc : Bool) : (encodePreim2col m input output width channel unit alloc).memory =
      runAll (if width ≤ 0 ∨ channel ≤ 0 then []
        else [.encode input output (toInt32 (width * channel)) unit alloc]) m := by
  rw [encodePreim2col]
  split_ifs with hsign
  · rfl
  · rw [runAll_cons, runAll_nil, Conversion.run_encode]

namespace EncodeState

theorem memory_encoderDone (s : EncodeState) (e : Encoded) : (s.encoderDone e).memory = e.memory := by
  rw [encoderDone]

/-- An input that is used in place is not converted. -/
theorem map_skip {s : EncodeState} {i : ℕ} {x : Input} {skip : Bool} {next : Option EncodeState}
    {l : Option (List Conversion)}
    (h : next.map EncodeState.memory = l.map (runAll · s.memory)) :
    (if skip then some (s.redirect i x) else next).map EncodeState.memory =
      (if skip = true then some [] else l).map (runAll · s.memory) := by
  split_ifs
  · rfl
  · exact h

theorem memory_plainCopy (s : EncodeState) (x : Input) : (s.plainCopy x).memory =
    (Conversion.plainCopy x.original x.encoded).run s.memory := by
  rw [plainCopy, Conversion.run_plainCopy, Input.encoded, Input.original]

/-- `EncodeInputs` does the conversions of the layout, and nothing else with the memory. -/
theorem encodeTensor_conversions (s : EncodeState) (i : ℕ) (x : Input) (alloc : Allocs) :
    (s.encodeTensor i x alloc).map EncodeState.memory =
      (x.conversions? (s.reqData.canSkipInputCopy x) alloc).map (runAll · s.memory) := by
  have hcopy := memory_plainCopy s x
  have hptr : x.encodedPtr = x.encoded.data := by rw [Input.encoded]
  rw [encodeTensor, Input.conversions?, Input.layoutConversions?]
  generalize s.reqData.canSkipInputCopy x = skip
  generalize x.info.layout = layout
  generalize x.info.transpose = transpose
  cases layout with
  | preFormatter =>
    simp only [reduceCtorEq, or_self, and_false, not_false_eq_true, and_true]
    refine map_skip ?_
    rw [Option.map_some, Option.map_some, memory_encoderDone, encodePreformatter_memory]
  | preIm2col =>
    simp only [reduceCtorEq, or_self, and_false, not_false_eq_true, and_true]
    refine map_skip ?_
    simp only [Option.bind_eq_bind, Option.map_bind, Function.comp_def, Option.map_some,
      memory_encoderDone, encodePreim2col_memory]
  | formatted =>
    cases transpose with
    | none =>
      simp only [reduceCtorEq, false_and, not_false_eq_true, and_true]
      refine map_skip ?_
      simp only [Option.bind_eq_bind, Option.map_bind, Function.comp_def, Option.map_some,
        memory_encoderDone, runAll_cons, runAll_nil, Conversion.run_encodeFormatted]
    | channelFirstToLast =>
      simp only [true_and, true_or, not_true_eq_false, and_false, if_false,
        formattedTransposed, Option.bind_eq_bind, Option.map_bind, Function.comp_def,
        Option.map_some, memory_encoderDone, runAll_cons, runAll_nil,
        Conversion.run_encodeFormatted, Conversion.run_transpose, hptr]
    | channelLastToFirst =>
      simp only [reduceCtorEq, false_and, not_false_eq_true, and_true]
      refine map_skip ?_
      simp only [Option.map_some, runAll_cons, runAll_nil, hcopy]
  | aligned =>
    cases transpose with
    | none =>
      simp only [reduceCtorEq, false_and, not_false_eq_true, and_true]
      refine map_skip ?_
      simp only [Option.bind_eq_bind, Option.map_bind, Function.comp_def, Option.map_some,
        memory_encoderDone, runAll_cons, runAll_nil, Conversion.run_encode]
    | channelFirstToLast =>
      simp only [true_and, or_true, not_true_eq_false, and_false, if_false,
        alignedTransposed, Option.bind_eq_bind, Option.map_bind, Function.comp_def,
        Option.map_some, memory_encoderDone, runAll_cons, runAll_nil, Conversion.run_encode,
        Conversion.run_transpose, hptr]
    | channelLastToFirst =>
      simp only [reduceCtorEq, false_and, not_false_eq_true, and_true]
      refine map_skip ?_
      simp only [Option.map_some, runAll_cons, runAll_nil, hcopy]
  | none | ppuYolo | ppuFd | ppuPose =>
    simp only [reduceCtorEq, or_self, and_false, not_false_eq_true, and_true]
    refine map_skip ?_
    simp only [Option.map_some, runAll_cons, runAll_nil, hcopy]

end EncodeState

theorem outerSize_lt (info : TensorInfo) : info.outerSize < 2 ^ 31 := by
  have hfold : ∀ (l : List ℤ) (n : ℤ), n < 2 ^ 31 →
      l.foldl (fun col d => toInt32 (col * toInt32 d)) n < 2 ^ 31 := by
    intro l
    induction l with
    | nil => exact fun n hn => hn
    | cons d l ih => exact fun n _ => ih _ (toInt32_bounds _).2
  exact hfold _ _ (by norm_num)

namespace EncodeState.Input

/-- The encoded buffer is a buffer, and the unit an `int`. -/
structure Typed (x : Input) : Prop where
  size : x.encodedSize < 2 ^ 32
  space : x.encodedPtr + x.encodedSize ≤ 2 ^ 64
  unit : x.info.alignUnit < 2 ^ 31

/-- Every conversion of an input goes to its encoded buffer. -/
theorem conversions_typed {x : Input} {skip : Bool} {alloc : Allocs} (hx : x.Typed) :
    ∀ l ∈ x.conversions? skip alloc, ∀ c ∈ l, c.Typed ∧ c.output = x.encoded := by
  intro l hl
  have hunit := scale_lt x.info hx.unit
  have houter := outerSize_lt x.info
  rw [conversions?, layoutConversions?] at hl
  split_ifs at hl
  · obtain rfl := Option.some.inj hl
    exact List.forall_mem_nil _
  generalize x.info.layout = layout at hl
  generalize x.info.transpose = transpose at hl
  cases layout with
  | preFormatter =>
    obtain rfl := Option.some.inj hl
    exact List.forall_mem_singleton.mpr ⟨⟨hx.size, hx.space, (toInt32_bounds _).2, hx.unit⟩, rfl⟩
  | preIm2col =>
    simp only [Option.mem_def, Option.bind_eq_bind, Option.bind_eq_some_iff, Option.some.injEq] at hl
    obtain ⟨width, -, channel, -, rfl⟩ := hl
    split_ifs
    · exact List.forall_mem_nil _
    · exact List.forall_mem_singleton.mpr ⟨⟨hx.size, hx.space, (toInt32_bounds _).2, hx.unit⟩, rfl⟩
  | formatted =>
    cases transpose with
    | none =>
      simp only [Option.mem_def, Option.bind_eq_bind, Option.bind_eq_some_iff, Option.some.injEq]
        at hl
      obtain ⟨channel, hchannel, rfl⟩ := hl
      exact List.forall_mem_singleton.mpr ⟨⟨hx.size, hx.space, dim?_lt hchannel, hx.unit⟩, rfl⟩
    | channelFirstToLast =>
      simp only [Option.mem_def, Option.bind_eq_bind, Option.bind_eq_some_iff, Option.some.injEq]
        at hl
      obtain ⟨channel, hchannel, elemSize, -, rfl⟩ := hl
      exact List.forall_mem_cons.mpr ⟨⟨⟨hx.size, hx.space, dim?_lt hchannel, hx.unit⟩, rfl⟩,
        List.forall_mem_singleton.mpr ⟨⟨hx.size, hx.space, dim?_lt hchannel, houter⟩, rfl⟩⟩
    | channelLastToFirst =>
      obtain rfl := Option.some.inj hl
      exact List.forall_mem_singleton.mpr ⟨⟨hx.size, hx.space, trivial⟩, rfl⟩
  | aligned =>
    cases transpose with
    | none =>
      simp only [Option.mem_def, Option.bind_eq_bind, Option.bind_eq_some_iff, Option.some.injEq]
        at hl
      obtain ⟨channel, hchannel, rfl⟩ := hl
      exact List.forall_mem_singleton.mpr
        ⟨⟨hx.size, hx.space, scale_lt _ (dim?_lt hchannel), hunit⟩, rfl⟩
    | channelFirstToLast =>
      simp only [Option.mem_def, Option.bind_eq_bind, Option.bind_eq_some_iff, Option.some.injEq]
        at hl
      obtain ⟨channel, hchannel, elemSize, -, rfl⟩ := hl
      exact List.forall_mem_cons.mpr ⟨⟨⟨hx.size, hx.space, dim?_lt hchannel, houter⟩, rfl⟩,
        List.forall_mem_singleton.mpr
          ⟨⟨hx.size, hx.space, scale_lt _ (dim?_lt hchannel), hunit⟩, rfl⟩⟩
    | channelLastToFirst =>
      obtain rfl := Option.some.inj hl
      exact List.forall_mem_singleton.mpr ⟨⟨hx.size, hx.space, trivial⟩, rfl⟩
  | none | ppuYolo | ppuFd | ppuPose =>
    obtain rfl := Option.some.inj hl
    exact List.forall_mem_singleton.mpr ⟨⟨hx.size, hx.space, trivial⟩, rfl⟩

end EncodeState.Input

namespace DecodeState

/-- What `DecodeOutputs` does for an output. -/
def Output.conversions? (x : Output) (alloc : Allocs) : Option (List Conversion) :=
  match x.info.layout, x.info.transpose with
  | .aligned, .none => do
    let channel ← x.info.dim? 0
    some [.decode x.encoded x.decoded (x.info.scale channel) (x.info.scale x.info.alignUnit)
      alloc.encoder]
  | .aligned, .channelLastToFirst => do
    let channel ← x.info.dim? 0
    let elemSize ← dataSizeRmapinfo x.info.dtypeEncoded
    some [.decode x.encoded x.decoded (x.info.scale channel) (x.info.scale x.info.alignUnit)
        alloc.encoder,
      .transpose x.tensor.data x.encoded x.info.outerSize channel elemSize alloc.transpose]
  | _, _ => some [.plainCopy x.encoded x.decoded]

theorem memory_decoderDone (s : DecodeState) (e : Encoded) : (s.decoderDone e).memory = e.memory := by
  rw [decoderDone]

theorem memory_plainCopy (s : DecodeState) (x : Output) : (s.plainCopy x).memory =
    (Conversion.plainCopy x.encoded x.decoded).run s.memory := by
  rw [plainCopy, Conversion.run_plainCopy, Output.encoded, Output.decoded]

theorem memory_setOutput (s : DecodeState) (i : ℕ) (t : OutputTensor) :
    (s.setOutput i t).memory = s.memory := by
  rw [setOutput]

/-- `DecodeOutputs` does the conversions of the layout, and nothing else with the memory. -/
theorem decodeTensor_conversions (s : DecodeState) (i : ℕ) (x : Output) (alloc : Allocs) :
    (s.decodeTensor i x alloc).map DecodeState.memory =
      (x.conversions? alloc).map (runAll · s.memory) := by
  have hcopy := memory_plainCopy s x
  have hptr : x.encodedPtr = x.encoded.data := by rw [Output.encoded]
  rw [decodeTensor, Output.conversions?]
  generalize x.info.layout = layout
  generalize x.info.transpose = transpose
  cases layout with
  | aligned =>
    cases transpose with
    | none =>
      simp only [Option.bind_eq_bind, Option.map_bind, Function.comp_def, Option.map_some,
        memory_decoderDone, decodeAligned_eq, runAll_cons, runAll_nil, Conversion.run_decode]
    | channelLastToFirst =>
      simp only [alignedTransposed, Option.bind_eq_bind, Option.map_bind, Function.comp_def,
        Option.map_some, memory_setOutput, memory_decoderDone, decodeAligned_eq, runAll_cons,
        runAll_nil, Conversion.run_decode, Conversion.run_transpose, hptr]
    | channelFirstToLast => simp only [Option.map_some, runAll_cons, runAll_nil, hcopy]
  | none | preFormatter | preIm2col | formatted | ppuYolo | ppuFd | ppuPose =>
    simp only [Option.map_some, runAll_cons, runAll_nil, hcopy]

/-- The two buffers are buffers, and the unit is an `int`. -/
structure Output.Typed (x : Output) : Prop where
  encodedSize : x.encodedSize < 2 ^ 32
  encodedSpace : x.encodedPtr + x.encodedSize ≤ 2 ^ 64
  size : x.tensor.sizeInBytes < 2 ^ 32
  space : x.tensor.data + x.tensor.sizeInBytes ≤ 2 ^ 64
  unit : x.info.alignUnit < 2 ^ 31

/-- Every conversion of an output goes to the tensor, but for the transposition back into the
    encoded buffer. -/
theorem Output.conversions_typed {x : Output} {alloc : Allocs} (hx : x.Typed) :
    ∀ l ∈ x.conversions? alloc, ∀ c ∈ l, c.Typed ∧
      (c.output = ⟨x.tensor.sizeInBytes, x.tensor.data⟩ ∨ c.output = x.encoded) := by
  intro l hl
  have hunit := scale_lt x.info hx.unit
  have houter := outerSize_lt x.info
  have hdecoded : x.decoded = ⟨x.tensor.sizeInBytes, x.tensor.data⟩ := by
    rw [decoded, Nat.mod_eq_of_lt hx.size]
  rw [conversions?, hdecoded] at hl
  generalize x.info.layout = layout at hl
  generalize x.info.transpose = transpose at hl
  cases layout with
  | aligned =>
    cases transpose with
    | none =>
      simp only [Option.mem_def, Option.bind_eq_bind, Option.bind_eq_some_iff, Option.some.injEq]
        at hl
      obtain ⟨channel, hchannel, rfl⟩ := hl
      exact List.forall_mem_singleton.mpr
        ⟨⟨hx.size, hx.space, scale_lt _ (dim?_lt hchannel), hunit⟩, Or.inl rfl⟩
    | channelLastToFirst =>
      simp only [Option.mem_def, Option.bind_eq_bind, Option.bind_eq_some_iff, Option.some.injEq]
        at hl
      obtain ⟨channel, hchannel, elemSize, -, rfl⟩ := hl
      exact List.forall_mem_cons.mpr
        ⟨⟨⟨hx.size, hx.space, scale_lt _ (dim?_lt hchannel), hunit⟩, Or.inl rfl⟩,
          List.forall_mem_singleton.mpr
            ⟨⟨hx.encodedSize, hx.encodedSpace, houter, dim?_lt hchannel⟩, Or.inr rfl⟩⟩
    | channelFirstToLast =>
      obtain rfl := Option.some.inj hl
      exact List.forall_mem_singleton.mpr ⟨⟨hx.size, hx.space, trivial⟩, Or.inl rfl⟩
  | none | preFormatter | preIm2col | formatted | ppuYolo | ppuFd | ppuPose =>
    obtain rfl := Option.some.inj hl
    exact List.forall_mem_singleton.mpr ⟨⟨hx.size, hx.space, trivial⟩, Or.inl rfl⟩

/-- The boxes of a PPU are a plain copy, too. -/
theorem decodePpu_conversions {s : DecodeState} {response : Response} {tensor : OutputTensor}
    {encodedPtr : ℕ} (htensor : s.request.outputs[0]? = some tensor)
    (hptr : s.request.encodedOutputPtrs[0]? = some encodedPtr) :
    (s.decodePpu response).map DecodeState.memory =
      if tensor.data = 0 ∨ encodedPtr = 0 then none
      else some ((Conversion.plainCopy ⟨128 * 1024, encodedPtr⟩
        ⟨tensor.sizeInBytes, tensor.data⟩).run s.memory) := by
  simp only [decodePpu, htensor, hptr, Option.bind_eq_bind, Option.bind_some]
  split_ifs
  · rfl
  · rw [Option.map_some, memory_setOutput, Conversion.run_plainCopy]

end DecodeState

/-- `EncodeInputs` and `DecodeOutputs` do nothing with the memory but their conversions, and a
    conversion that reports no error writes inside its destination exactly if the sizes are fine. -/
theorem conversions_inside_iff (c : Conversion) (hc : c.Typed) :
    ((∀ m, c.Accepts ∧ c.run m = replay (c.stores m) m ∨ c.ret m ≠ 0 ∨ c.run m = m) ∧
      (c.Inside ↔ c.Fine)) ∧
    (∀ (s : EncodeState) (i : ℕ) (x : EncodeState.Input) (alloc : Allocs), x.Typed →
      (s.encodeTensor i x alloc).map EncodeState.memory =
        (x.conversions? (s.reqData.canSkipInputCopy x) alloc).map (runAll · s.memory) ∧
      ∀ l ∈ x.conversions? (s.reqData.canSkipInputCopy x) alloc, ∀ c ∈ l,
        c.Typed ∧ c.output = x.encoded) ∧
    (∀ (s : DecodeState) (i : ℕ) (x : DecodeState.Output) (alloc : Allocs), x.Typed →
      (s.decodeTensor i x alloc).map DecodeState.memory =
        (x.conversions? alloc).map (runAll · s.memory) ∧
      ∀ l ∈ x.conversions? alloc, ∀ c ∈ l, c.Typed ∧
        (c.output = ⟨x.tensor.sizeInBytes, x.tensor.data⟩ ∨ c.output = x.encoded)) ∧
    ∀ (s : DecodeState) (response : Response) (tensor : OutputTensor) (encodedPtr : ℕ),
      s.request.outputs[0]? = some tensor → s.request.encodedOutputPtrs[0]? = some encodedPtr →
      (s.decodePpu response).map DecodeState.memory =
        if tensor.data = 0 ∨ encodedPtr = 0 then none
        else some ((Conversion.plainCopy ⟨128 * 1024, encodedPtr⟩
          ⟨tensor.sizeInBytes, tensor.data⟩).run s.memory) := by
  refine ⟨⟨fun m => ?_, Conversion.inside_iff hc⟩, fun s i x alloc hx =>
    ⟨s.encodeTensor_conversions i x alloc, EncodeState.Input.conversions_typed hx⟩,
    fun s i x alloc hx => ⟨s.decodeTensor_conversions i x alloc, DecodeState.Output.conversions_typed hx⟩,
    fun s response tensor encodedPtr htensor hptr => DecodeState.decodePpu_conversions htensor hptr⟩
  by_cases ha : c.Accepts
  · exact Or.inl ⟨ha, Conversion.run_eq ha⟩
  · exact Or.inr (Conversion.refused hc ha)

/-- Three rows of six bytes that are padded to eight, in a buffer of 24. -/
theorem conversions_inside_three_rows :
    (Conversion.encode ⟨18, 4096⟩ ⟨24, 8192⟩ 6 4 true).Inside :=
  (conversions_inside_iff (.encode ⟨18, 4096⟩ ⟨24, 8192⟩ 6 4 true)
    ⟨by decide, by decide, by decide, by decide⟩).1.2.mpr
    fun _ => Or.inr (Or.inr ⟨by decide +kernel, by decide +kernel⟩)

/-- Two rows of two bytes need eight bytes in groups of four; `encode_formatted` clears eight bytes
    of a buffer of four, and reports no error. -/
theorem formatted_outside : ¬ ∀ c : Conversion, c.Typed → c.Inside := by
  intro hall
  have hinside : (Conversion.encodeFormatted ⟨4, 4096⟩ ⟨4, 8192⟩ 2 4 true).Inside :=
    hall _ ⟨by decide, by decide, by decide, by decide⟩
  have hfits : FormattedFits ⟨4, 4096⟩ ⟨4, 8192⟩ 2 4 true :=
    ⟨by decide, by decide, by decide, by decide, by decide, by decide, by decide +kernel⟩
  have hroom := (Conversion.encodeFormatted_within hfits (by decide) (by decide)).mp
    (hinside hfits fun _ => 0)
  exact absurd hroom (by decide +kernel)

end DxRt.NpuFormatHandler
