import DxRt.Format.Encode
import DxRt.Lib.Blocks
import DxRt.Lib.Stores

/-! Sizes of the NPU formats: what the 32-bit arithmetic of the encoders computes while nothing
    overflows, and where their buffers are. -/

namespace DxRt.NpuFormatHandler
open Blocks Stores

variable {size col unit : ℕ}

theorem toInt32_of_bounds {x : ℤ} (hlow : -2 ^ 31 ≤ x) (hhigh : x < 2 ^ 31) : toInt32 x = x := by
  rw [toInt32, Int.bmod_def]
  omega

theorem toInt32_natCast {x : ℕ} (h : x < 2 ^ 31) : toInt32 x = x :=
  toInt32_of_bounds (by omega) (by omega)

theorem toSize_natCast {x : ℕ} (h : x < 2 ^ 64) : toSize x = x := by
  rw [toSize, HandleTable.toUint64]
  omega

theorem toUint32_natCast {x : ℕ} (h : x < 2 ^ 32) : toUint32 x = x := by
  rw [toUint32]
  omega

theorem cdiv_eq (hcol : 1 ≤ col) (hunit : 1 ≤ unit) (hwidth : col + unit ≤ 2 ^ 31) :
    cdiv col unit = ((col + unit - 1) / unit : ℕ) := by
  have hsum : toInt32 ((col : ℤ) + toInt32 (unit - 1)) = ((col + unit - 1 : ℕ) : ℤ) := by
    have hunit' : toInt32 ((unit : ℤ) - 1) = unit - 1 := toInt32_of_bounds (by omega) (by omega)
    rw [hunit', toInt32_of_bounds (by omega) (by omega)]
    omega
  rw [cdiv, if_neg (by omega), hsum, Int.tdiv_eq_ediv_of_nonneg (by omega), Int.natCast_div]

theorem alignedCol_eq (hcol : 1 ≤ col) (hunit : 1 ≤ unit) (hwidth : col + unit ≤ 2 ^ 31) :
    alignedCol col unit = alignUp col unit := by
  have hlt := alignUp_lt col hunit
  rw [alignedCol, cdiv_eq hcol hunit hwidth, ← Nat.cast_mul, ← alignUp, toInt32_natCast (by omega)]

theorem rows_eq (hrows : size / col < 2 ^ 31) : rows size col = (size / col : ℕ) := by
  rw [rows, Int.toNat_natCast, toInt32_natCast hrows]

theorem expectedSize_eq (hcol : 1 ≤ col) (hunit : 1 ≤ unit) (hwidth : col + unit ≤ 2 ^ 31)
    (hrows : size / col < 2 ^ 31) (htotal : size / col * alignUp col unit < 2 ^ 32) :
    expectedSize size col unit = size / col * alignUp col unit := by
  have hlt := alignUp_lt col hunit
  rw [expectedSize, rows_eq hrows, alignedCol_eq hcol hunit hwidth, toUint32_natCast (by omega),
    toUint32_natCast (by omega), Nat.mod_eq_of_lt htotal]

/-- Two buffers have no byte in common. -/
def Apart (a b : Bytes) : Prop := a.data + a.size ≤ b.data ∨ b.data + b.size ≤ a.data

instance (a b : Bytes) : Decidable (Apart a b) := inferInstanceAs (Decidable (_ ∨ _))

/-- The source and the destination of a conversion are there, and the destination ends inside the
    address space. They are the same buffer, and there is memory for the copy of it, or they have
    nothing in common. -/
structure Buffers (input output : Bytes) (alloc : Bool) : Prop where
  source : input.data ≠ 0
  destination : output.data ≠ 0
  space : output.data + output.size ≤ 2 ^ 64
  memory : input.data = output.data → alloc = true
  apart : input.data ≠ output.data → Apart input output

/-- The bytes of a buffer. -/
def bytesAt (m : ProcessMemory) (b : Bytes) : ℕ → UInt8 := fun k => m (b.data + k)

/-- A source reads the `size` bytes `x`, whatever has been stored in the destination meanwhile. -/
def Reads (source : ProcessMemory → ℕ → UInt8) (m : ProcessMemory) (base n size : ℕ)
    (x : ℕ → UInt8) : Prop := ∀ m', Framed m base n m' → ∀ k < size, source m' k = x k

theorem reads_apart (m : ProcessMemory) {input : Bytes} {base n : ℕ}
    (h : Apart input ⟨n, base⟩) : Reads (fun m k => m (input.data + k)) m base n input.size
      (bytesAt m input) := by
  intro m' hm k hk
  refine hm _ ?_
  rcases h with h | h
  · simp only at h
    omega
  · simp only at h
    omega

theorem reads_copy (m : ProcessMemory) (base n size : ℕ) (x : ℕ → UInt8) :
    Reads (fun _ => x) m base n size x := fun _ _ _ _ => rfl

/-! ### Stores of the encoders -/

/-- `memset` as a store. -/
def clear (data size : ℕ) : Store UInt8 := ⟨data, size, fun _ _ => 0⟩

theorem clear_run (m : ProcessMemory) (data size : ℕ) :
    (clear data size).run m = m.memset data 0 size := rfl

/-- The copies of an encoder. -/
def copies {ι : Type} (source : ProcessMemory → ι → ℕ → UInt8) (dst size : ι → ℕ) (l : List ι) :
    List (Store UInt8) :=
  l.map fun i => ⟨dst i, size i, fun m => source m i⟩

theorem foldl_copyIn {ι : Type} (source : ProcessMemory → ι → ℕ → UInt8) (dst size : ι → ℕ)
    (l : List ι) (m : ProcessMemory) :
    l.foldl (fun m i => m.copyIn (dst i) (size i) (source m i)) m =
      replay (copies source dst size l) m := by
  rw [replay, copies, List.foldl_map]
  rfl

end DxRt.NpuFormatHandler
