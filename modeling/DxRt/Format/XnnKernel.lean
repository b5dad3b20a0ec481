import DxRt.Lib.WordMemory

/-! lib/xnn_kernel.cpp: the transposition with NEON.

    Blocks of 16 x 16 bytes, or of 4 x 4 elements of four bytes, are loaded a row at a time into
    registers of 16 bytes, transposed there, and stored a column at a time; what the blocks leave over
    is copied element by element. A `size_t` is a natural number, with `% 2 ^ 64` where the code
    multiplies; pointers wrap. The assertions are left out: the callers keep them. -/

namespace DxRt.XnnKernel
open WordMemory

/-- The memory, and the byte ranges that were read from it: the pointer and the number of bytes. -/
structure Machine where
  memory : Memory UInt8
  loads : List (Address × ℕ)

/-- A `uint8x16_t`, or its half; there are 16 lanes. -/
abbrev Lanes := ℕ → UInt8

/-- `n & -q`. -/
def roundDownPo2 (n q : ℕ) : ℕ := n &&& (2 ^ 64 - q)

/-! ### Intrinsics -/

/-- What a load at `p` finds. -/
def vld1q (m : Memory UInt8) (p : Address) : Lanes := fun l => m (p + l)

/-- `vzipq_u8`: the lower and the upper lanes, one of each operand in turn. -/
def vzipq (a b : Lanes) : Lanes × Lanes :=
  (fun l => if l % 2 = 0 then a (l / 2) else b (l / 2),
    fun l => if l % 2 = 0 then a (8 + l / 2) else b (8 + l / 2))

/-- `vqtbl4q_u8`: the bytes of four registers that the indices name. -/
def vqtbl4q (v : ℕ → Lanes) (index : List ℕ) : Lanes := fun l =>
  let i := index.getD l 64
  if i < 64 then v (i / 16) (i % 16) else 0

/-- `vget_high_u8`; the lower half of a register is the register itself. -/
def vgetHigh (v : Lanes) : Lanes := fun l => v (8 + l)

/-! ### The kernel for bytes -/

/-- One stage: registers `i` and `i + 8` give registers `2 * i` and `2 * i + 1` of the next stage. -/
def zipStage (v : ℕ → Lanes) : ℕ → Lanes := fun k =>
  let z := vzipq (v (k / 2)) (v (k / 2 + 8))
  if k % 2 = 0 then z.1 else z.2

/-- `v4` to `v0`. -/
def zipNetwork (v4 : ℕ → Lanes) : ℕ → Lanes :=
  let v3 := zipStage v4
  let v2 := zipStage v3
  let v1 := zipStage v2
  zipStage v1

/-- Stores columns `k` to 0. The pointer goes back one row only behind a column of the block, so that
    the columns behind the block are overwritten by its last one. -/
def storeColumns (blockWidth : ℕ) (minusOutputStride : Address) (v0 : ℕ → Lanes) :
    ℕ → Address → Memory UInt8 → Address × Memory UInt8
  | 0, o, m => (o, store m o 16 (v0 0))
  | k + 1, o, m => storeColumns blockWidth minusOutputStride v0 k
      (if k + 1 < blockWidth then o + minusOutputStride else o) (store m o 16 (v0 (k + 1)))

/-- `i0`, `o` and the machine. -/
structure State8 where
  i0 : Address
  o : Address
  machine : Machine

/-- One block of 16 rows. -/
def tile8 (inputStride : ℕ) (outputStride blockWidth : ℕ) (s : State8) : State8 :=
  let row := fun k : ℕ => s.i0 + (k * inputStride : ℕ)
  let v4 := fun k => vld1q s.machine.memory (row k)
  let rem := min (blockWidth - 1) 15
  let oNOffset := rem * outputStride + 16
  let stored := storeColumns blockWidth (-outputStride) (zipNetwork v4) 15 (s.o + (oNOffset : ℕ))
    s.machine.memory
  { i0 := s.i0 + (16 * inputStride : ℕ)
    o := stored.1
    machine :=
      { memory := stored.2
        loads := s.machine.loads ++ (List.range 16).map fun k => (row k, 16) } }

/-- `for (; bh >= 16; bh -= 16)`. -/
def tiles8 (inputStride outputStride blockWidth bh : ℕ) (s : State8) : State8 :=
  if 16 ≤ bh then
    tiles8 inputStride outputStride blockWidth (bh - 16)
      (tile8 inputStride outputStride blockWidth s)
  else s
termination_by bh

/-- The `do` loop over the columns, 16 at a time. -/
def columns8 (inputStride outputStride blockHeight blockWidth : ℕ) (s : State8) : State8 :=
  let inputReset : Address := (16 : ℕ) - (roundDownPo2 blockHeight 16 * inputStride : ℕ)
  let outputReset : Address := (16 * outputStride : ℕ) - (roundDownPo2 blockHeight 2 : ℕ) - (16 : ℕ)
  let s := tiles8 inputStride outputStride blockWidth blockHeight s
  let s : State8 := ⟨s.i0 + inputReset, s.o + (16 : ℕ) + outputReset, s.machine⟩
  if blockWidth ≤ 16 then s
  else columns8 inputStride outputStride blockHeight (blockWidth - 16) s
termination_by blockWidth

/-- `xnn_x8_transposec_ukernel__16x16_reuse_mov_zip_neon`. -/
def x8TransposecUkernel (input output : Address) (inputStride outputStride blockWidth blockHeight : ℕ)
    (s : Machine) : Machine :=
  (columns8 inputStride outputStride blockHeight blockWidth
    ⟨input, output - (16 : ℕ), s⟩).machine

/-! ### The kernel for elements of four bytes -/

def pos0 : List ℕ := [0, 1, 2, 3, 16, 17, 18, 19, 32, 33, 34, 35, 48, 49, 50, 51]
def pos1 : List ℕ := [4, 5, 6, 7, 20, 21, 22, 23, 36, 37, 38, 39, 52, 53, 54, 55]
def pos2 : List ℕ := [8, 9, 10, 11, 24, 25, 26, 27, 40, 41, 42, 43, 56, 57, 58, 59]
def pos3 : List ℕ := [12, 13, 14, 15, 28, 29, 30, 31, 44, 45, 46, 47, 60, 61, 62, 63]

/-- `vperm0` to `vperm3`. -/
def vperm : ℕ → List ℕ
  | 0 => pos0
  | 1 => pos1
  | 2 => pos2
  | _ => pos3

/-- `i0` to `i3`, `o0` to `o3`, and the machine. -/
structure State32 where
  i : ℕ → Address
  o : ℕ → Address
  machine : Machine

/-- Row `k` of a block; a pointer to a row behind the block is that of row 0. -/
def rowPointer (i0 : Address) (stride rows k : ℕ) : Address :=
  if k < rows then i0 + (k * stride : ℕ) else i0

/-- The loads of rows 0 to 3. -/
def loads32 (i : ℕ → Address) : List (Address × ℕ) := (List.range 4).map fun k => (i k, 16)

/-- Stores `n` bytes of columns 3 to 0. -/
def store32 (n : ℕ) (o : ℕ → Address) (vres : ℕ → Lanes) (m : Memory UInt8) : Memory UInt8 :=
  storeAll n o vres [3, 2, 1, 0] m

/-- One block of four rows. -/
def tile32 (tileStride : ℕ) (s : State32) : State32 :=
  let v := fun k => vld1q s.machine.memory (s.i k)
  let vres := fun c => vqtbl4q v (vperm c)
  { i := fun k => s.i k + (tileStride : Address)
    o := fun c => s.o c + (16 : ℕ)
    machine :=
      { memory := store32 16 s.o vres s.machine.memory
        loads := s.machine.loads ++ loads32 s.i } }

/-- `for (; bh >= 4; bh -= 4)`, with what is left of `bh`. -/
def tiles32 (tileStride bh : ℕ) (s : State32) : State32 × ℕ :=
  if 4 ≤ bh then tiles32 tileStride (bh - 4) (tile32 tileStride s) else (s, bh)
termination_by bh

/-- The last one to three rows. -/
def rest32 (bh : ℕ) (s : State32) : State32 :=
  let i := fun k => if bh ≤ k then s.i 0 else s.i k
  let v := fun k => vld1q s.machine.memory (i k)
  let vres := fun c => vqtbl4q v (vperm c)
  let pair := bh &&& 2 ≠ 0
  let memory := if pair then store32 8 s.o vres s.machine.memory else s.machine.memory
  let o := fun c => if pair then s.o c + (8 : ℕ) else s.o c
  let vresLow := fun c => if pair then vgetHigh (vres c) else vres c
  { i := i
    o := o
    machine :=
      { memory := if bh &&& 1 ≠ 0 then store32 4 o vresLow memory else memory
        loads := s.machine.loads ++ loads32 i } }

/-- Four columns of all rows. -/
def column32 (tileStride blockHeight : ℕ) (s : State32) : State32 :=
  let p := tiles32 tileStride blockHeight s
  if p.2 ≠ 0 then rest32 p.2 p.1 else p.1

/-- The `do` loop over the columns, four at a time. -/
def columns32 (inputStride outputStride blockHeight blockWidth : ℕ) (s : State32) : State32 :=
  let inputReset : Address := (16 : ℕ) - (roundDownPo2 blockHeight 4 * inputStride : ℕ)
  let outputReset : Address := (4 * outputStride : ℕ) - (roundDownPo2 blockHeight 2 * 4 : ℕ)
  let s : State32 := { s with o := fun c => if blockWidth ≤ c then s.o 0 else s.o c }
  let s := column32 (4 * inputStride) blockHeight s
  let s : State32 :=
    { i := rowPointer (s.i 0 + inputReset) inputStride blockHeight
      o := fun c => s.o c + outputReset
      machine := s.machine }
  if blockWidth ≤ 4 then s
  else columns32 inputStride outputStride blockHeight (blockWidth - 4) s
termination_by blockWidth

/-- `xnn_x32_transposec_ukernel__4x4_aarch64_neon_tbl128`. -/
def x32TransposecUkernel (input output : Address)
    (inputStride outputStride blockWidth blockHeight : ℕ) (s : Machine) : Machine :=
  if blockWidth = 0 ∨ blockHeight = 0 then s
  else (columns32 inputStride outputStride blockHeight blockWidth
    ⟨rowPointer input inputStride blockHeight, rowPointer output outputStride blockWidth, s⟩).machine

/-! ### The transposition -/

/-- One element, from `src` to `dst`. -/
def copyElement (size : ℕ) (dst src : Address) (s : Machine) : Machine where
  memory := store s.memory dst size fun b => s.memory (src + b)
  loads := s.loads ++ [(src, size)]

/-- The scalar loops over rows from `r` on and columns from `c` on; strides are in elements. -/
def scalarLoop (size : ℕ) (src dst : Address) (inStride outStride r bh c bw : ℕ) (s : Machine) :
    Machine :=
  (List.range' r (bh - r)).foldl (fun s r => (List.range' c (bw - c)).foldl (fun s c =>
    copyElement size (dst + ((c * outStride + r) * size : ℕ)) (src + ((r * inStride + c) * size : ℕ))
      s) s) s

/-- One block, by vectors as far as they go. `size` is `sizeof(T)`; the strides are in bytes, and in
    elements. -/
def transposeBlock (size : ℕ) (src dst : Address)
    (inputStride outputStride inStrideElems outStrideElems bh bw : ℕ) (s : Machine) : Machine :=
  if size = 1 then
    let fullBh := roundDownPo2 bh 16
    let s := if 0 < fullBh then
      x8TransposecUkernel src dst inputStride outputStride bw fullBh s else s
    scalarLoop size src dst inputStride outputStride fullBh bh 0 bw s
  else if size = 4 then
    let fullBw := bw &&& (2 ^ 64 - 1 - 3)
    let s := if 0 < fullBw then
      x32TransposecUkernel src dst inputStride outputStride fullBw bh s else s
    scalarLoop size src dst inStrideElems outStrideElems 0 bh fullBw bw s
  else scalarLoop size src dst inStrideElems outStrideElems 0 bh 0 bw s

/-- `MACRO_BLOCK_X8` and `MACRO_BLOCK_X32`. -/
def macroBlock (size : ℕ) : ℕ := if size = 1 then 128 else 64

def macroTileThreshold : ℕ := 32 * 1024

/-- The values of a loop from 0 to `n` in steps of `step`. -/
def steps (n step : ℕ) : List ℕ := (List.range ((n + step - 1) / step)).map (· * step)

def xnnpackTransposeMacro (size : ℕ) (input output : Address) (rows cols : ℕ) (s : Machine) :
    Machine :=
  let blockSize := macroBlock size
  let inputStride := cols * size % 2 ^ 64
  let outputStride := rows * size % 2 ^ 64
  (steps rows blockSize).foldl (fun s r0 =>
    let bh := min blockSize (rows - r0)
    (steps cols blockSize).foldl (fun s c0 =>
      let bw := min blockSize (cols - c0)
      transposeBlock size (input + ((r0 * cols + c0) * size : ℕ))
        (output + ((c0 * rows + r0) * size : ℕ)) inputStride outputStride (inputStride / size)
        (outputStride / size) bh bw s) s) s

def xnnpackTranspose (size : ℕ) (input output : Address) (rows cols : ℕ) (s : Machine) : Machine :=
  if rows = 0 ∨ cols = 0 then s
  else if rows = 1 ∧ cols = 1 then copyElement size output input s
  else if rows = 1 ∨ cols = 1 then
    (List.range (rows * cols % 2 ^ 64)).foldl (fun s i =>
      copyElement size (output + (i * size : ℕ)) (input + (i * size : ℕ)) s) s
  else if macroTileThreshold < rows * cols * size % 2 ^ 64 then
    xnnpackTransposeMacro size input output rows cols s
  else
    transposeBlock size input output (cols * size % 2 ^ 64) (rows * size % 2 ^ 64) cols rows rows cols s

end DxRt.XnnKernel
