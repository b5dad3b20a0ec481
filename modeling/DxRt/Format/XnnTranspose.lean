import DxRt.Format.XnnKernel
import DxRt.Lib.Blocks

/-! lib/xnn_kernel.cpp: what the transposition writes and reads.

    Each piece of it, a block in registers or an element, fills cells of the output with the elements
    of the input that belong there, leaves all other cells, and loads from known rows and columns. The
    loops put the pieces together until the whole output is filled. -/

namespace DxRt.XnnKernel
open WordMemory Blocks

/-! ### Bits and lanes -/

theorem and_high_bits {n k : ℕ} (hk : k ≤ 64) (hn : n < 2 ^ 64) :
    n &&& (2 ^ 64 - 2 ^ k) = n / 2 ^ k * 2 ^ k := by
  have hmask : 2 ^ 64 - 2 ^ k = (2 ^ (64 - k) - 1) * 2 ^ k := by
    rw [Nat.sub_mul, ← Nat.pow_add, Nat.sub_add_cancel hk, Nat.one_mul]
  refine Nat.eq_of_testBit_eq fun i => ?_
  rw [hmask, Nat.testBit_and, Nat.testBit_mul_two_pow, Nat.testBit_mul_two_pow,
    Nat.testBit_two_pow_sub_one, Nat.testBit_div_two_pow]
  rcases Nat.lt_or_ge i k with hi | hi
  · simp [Nat.not_le.mpr hi]
  · rw [Nat.sub_add_cancel hi]
    rcases Nat.lt_or_ge i 64 with hi' | hi'
    · have hlt : i - k < 64 - k := by omega
      simp [hi, hlt]
    · have hbit : n.testBit i = false :=
        Nat.testBit_lt_two_pow (hn.trans_le (Nat.pow_le_pow_right (by decide) hi'))
      simp [hbit]

theorem roundDownPo2_sixteen {n : ℕ} (hn : n < 2 ^ 64) : roundDownPo2 n 16 = n / 16 * 16 :=
  and_high_bits (k := 4) (by decide) hn

theorem roundDownPo2_four {n : ℕ} (hn : n < 2 ^ 64) : roundDownPo2 n 4 = n / 4 * 4 :=
  and_high_bits (k := 2) (by decide) hn

theorem roundDownPo2_two {n : ℕ} (hn : n < 2 ^ 64) : roundDownPo2 n 2 = n / 2 * 2 :=
  and_high_bits (k := 1) (by decide) hn

theorem zipStage_apply (v : ℕ → Lanes) (k l : ℕ) :
    zipStage v k l = v (k / 2 + l % 2 * 8) (k % 2 * 8 + l / 2) := by
  unfold zipStage vzipq
  rcases Nat.mod_two_eq_zero_or_one k with hk | hk <;>
    rcases Nat.mod_two_eq_zero_or_one l with hl | hl <;> simp [hk, hl]

/-- Two stages take two bits of the lane into the register and two bits of the register into the
    lane. -/
theorem zipStage_zipStage (v : ℕ → Lanes) (k l : ℕ) :
    zipStage (zipStage v) k l = v (k / 4 + l % 4 * 4) (k % 4 * 4 + l / 4) := by
  have hk4 : k / 2 / 2 = k / 4 := Nat.div_div_eq_div_mul k 2 2
  have hl4 : l / 2 / 2 = l / 4 := Nat.div_div_eq_div_mul l 2 2
  have hreg : (k / 2 + l % 2 * 8) / 2 + (k % 2 * 8 + l / 2) % 2 * 8 = k / 4 + l % 4 * 4 := by omega
  have hlane : (k / 2 + l % 2 * 8) % 2 * 8 + (k % 2 * 8 + l / 2) / 2 = k % 4 * 4 + l / 4 := by omega
  rw [zipStage_apply, zipStage_apply, hreg, hlane]

/-- The four stages transpose the 16 registers. -/
theorem zipNetwork_apply (v : ℕ → Lanes) {k l : ℕ} (hk : k < 16) (hl : l < 16) :
    zipNetwork v k l = v l k := by
  have hreg : (k / 4 + l % 4 * 4) / 4 + (k % 4 * 4 + l / 4) % 4 * 4 = l := by omega
  have hlane : (k / 4 + l % 4 * 4) % 4 * 4 + (k % 4 * 4 + l / 4) / 4 = k := by omega
  rw [zipNetwork, zipStage_zipStage, zipStage_zipStage, hreg, hlane]

/-- `vperm` takes element `c` of each of the four registers. -/
theorem vqtbl4q_vperm (v : ℕ → Lanes) {c l : ℕ} (hc : c < 4) (hl : l < 16) :
    vqtbl4q v (vperm c) l = v (l / 4) (4 * c + l % 4) := by
  have hall : ∀ c < 4, ∀ l < 16, (vperm c).getD l 64 = 16 * (l / 4) + (4 * c + l % 4) := by decide
  have hreg : (16 * (l / 4) + (4 * c + l % 4)) / 16 = l / 4 := by omega
  have hlane : (16 * (l / 4) + (4 * c + l % 4)) % 16 = 4 * c + l % 4 := by omega
  simp only [vqtbl4q, hall c hc l hl, hreg, hlane]
  rw [if_pos (by omega)]

/-! ### Matrices -/

/-- The two matrices: `size` bytes an element, in buffers that do not meet. -/
structure Matrices where
  size : ℕ
  rows : ℕ
  cols : ℕ
  input : Address
  output : Address
  total : rows * cols * size < 2 ^ 64
  apart : ∀ k < rows * cols * size, ∀ l < rows * cols * size, input + k ≠ output + l

namespace Matrices
variable (x : Matrices)

/-- Byte `b` of the input element in row `i` and column `j`. -/
def inp (i j b : ℕ) : Address := x.input + ((i * x.cols + j) * x.size + b : ℕ)

/-- Byte `b` of the output element that belongs to it. -/
def out (i j b : ℕ) : Address := x.output + ((j * x.rows + i) * x.size + b : ℕ)

variable {x} {i j b i' j' b' : ℕ}

theorem inp_lt (hi : i < x.rows) (hj : j < x.cols) (hb : b < x.size) :
    (i * x.cols + j) * x.size + b < x.rows * x.cols * x.size :=
  place_lt (place_lt hi hj) hb

theorem out_lt (hi : i < x.rows) (hj : j < x.cols) (hb : b < x.size) :
    (j * x.rows + i) * x.size + b < x.rows * x.cols * x.size := by
  rw [Nat.mul_comm x.rows]
  exact place_lt (place_lt hj hi) hb

theorem inp_ne_out (hi : i < x.rows) (hj : j < x.cols) (hb : b < x.size) (hi' : i' < x.rows)
    (hj' : j' < x.cols) (hb' : b' < x.size) : x.inp i j b ≠ x.out i' j' b' :=
  x.apart _ (inp_lt hi hj hb) _ (out_lt hi' hj' hb')

theorem out_inj (hi : i < x.rows) (hj : j < x.cols) (hb : b < x.size) (hi' : i' < x.rows)
    (hj' : j' < x.cols) (hb' : b' < x.size) (h : x.out i j b = x.out i' j' b') :
    i = i' ∧ j = j' ∧ b = b' := by
  have htotal := x.total
  have heq := (add_offset_inj ((out_lt hi hj hb).trans htotal)
    ((out_lt hi' hj' hb').trans htotal)).mp h
  have hbyte : b = b' := by
    rw [← add_mul_mod_of_lt (i := j * x.rows + i) hb, heq, add_mul_mod_of_lt hb']
  have hplace : j * x.rows + i = j' * x.rows + i' := by
    rw [← add_mul_div_of_lt (i := j * x.rows + i) hb, heq, add_mul_div_of_lt hb']
  refine ⟨?_, ?_, hbyte⟩
  · rw [← add_mul_mod_of_lt (i := j) hi, hplace, add_mul_mod_of_lt hi']
  · rw [← add_mul_div_of_lt (i := j) hi, hplace, add_mul_div_of_lt hi']

/-! ### Filled cells -/

/-- From `m` to `m'` the output cells of `S` got their elements of the input, as they were in `m₀`;
    all other cells are those of `m`. -/
structure Fills (x : Matrices) (m₀ : Memory UInt8) (S : ℕ → ℕ → Prop) (m m' : Memory UInt8) :
    Prop where
  inside : ∀ i j, S i j → i < x.rows ∧ j < x.cols
  written : ∀ i j b, S i j → b < x.size → m' (x.out i j b) = m₀ (x.inp i j b)
  kept : ∀ a, (∀ i j b, S i j → b < x.size → a ≠ x.out i j b) → m' a = m a

variable {m₀ m m' m'' : Memory UInt8} {S T : ℕ → ℕ → Prop} {P : ℕ → ℕ → ℕ → Prop} {s : Machine}

theorem Fills.refl (m : Memory UInt8) : Fills x m₀ (fun _ _ => False) m m where
  inside _ _ h := h.elim
  written _ _ _ h := h.elim
  kept _ _ := rfl

theorem Fills.trans (h : Fills x m₀ S m m') (h' : Fills x m₀ T m' m'') :
    Fills x m₀ (fun i j => S i j ∨ T i j) m m'' where
  inside i j := by
    rintro (hS | hT)
    · exact h.inside i j hS
    · exact h'.inside i j hT
  written i j b hST hb := by
    by_cases hT : T i j
    · exact h'.written i j b hT hb
    · have hS : S i j := hST.resolve_right hT
      rw [h'.kept, h.written i j b hS hb]
      intro i' j' b' hT' hb' heq
      obtain ⟨hi, hj⟩ := h.inside i j hS
      obtain ⟨hi', hj'⟩ := h'.inside i' j' hT'
      obtain ⟨rfl, rfl, -⟩ := out_inj hi hj hb hi' hj' hb' heq
      exact hT hT'
  kept a ha := by
    rw [h'.kept a fun i j b hT => ha i j b (Or.inr hT), h.kept a fun i j b hS => ha i j b (Or.inl hS)]

theorem Fills.congr (h : Fills x m₀ S m m') (hST : ∀ i j, S i j ↔ T i j) : Fills x m₀ T m m' := by
  have hset : S = T := funext fun i => funext fun j => propext (hST i j)
  rwa [← hset]

/-- What a run has done so far: the cells of `S` are filled, and the loads are those that `P` says for
    the elements of `S`. -/
structure Done (x : Matrices) (m₀ : Memory UInt8) (P : ℕ → ℕ → ℕ → Prop) (S : ℕ → ℕ → Prop)
    (s : Machine) : Prop where
  fills : Fills x m₀ S m₀ s.memory
  loads : ∀ r, r ∈ s.loads ↔ ∃ i j n, S i j ∧ P i j n ∧ r = (x.inp i j 0, n)

/-- The input is as it was. -/
theorem Done.read (h : Done x m₀ P S s) (hi : i < x.rows) (hj : j < x.cols) (hb : b < x.size) :
    s.memory (x.inp i j b) = m₀ (x.inp i j b) := by
  refine h.fills.kept _ fun i' j' b' hS hb' => ?_
  obtain ⟨hi', hj'⟩ := h.fills.inside i' j' hS
  exact inp_ne_out hi hj hb hi' hj' hb'

theorem Done.congr (h : Done x m₀ P S s) (hST : ∀ i j, S i j ↔ T i j) : Done x m₀ P T s := by
  have hset : S = T := funext fun i => funext fun j => propext (hST i j)
  rwa [← hset]

theorem Done.init (x : Matrices) (m₀ : Memory UInt8) (P : ℕ → ℕ → ℕ → Prop) :
    Done x m₀ P (fun _ _ => False) ⟨m₀, []⟩ where
  fills := Fills.refl m₀
  loads r := by simp

/-- One piece more. -/
theorem Done.step {loads : List (Address × ℕ)} (h : Done x m₀ P S s)
    (hT : Fills x m₀ T s.memory m')
    (hloads : ∀ r, r ∈ loads ↔ ∃ i j n, T i j ∧ P i j n ∧ r = (x.inp i j 0, n)) :
    Done x m₀ P (fun i j => S i j ∨ T i j) ⟨m', s.loads ++ loads⟩ where
  fills := h.fills.trans hT
  loads r := by
    rw [List.mem_append, h.loads, hloads]
    constructor
    · rintro (⟨i, j, n, hS, hrest⟩ | ⟨i, j, n, hT, hrest⟩)
      · exact ⟨i, j, n, Or.inl hS, hrest⟩
      · exact ⟨i, j, n, Or.inr hT, hrest⟩
    · rintro ⟨i, j, n, hS | hT, hrest⟩
      · exact Or.inl ⟨i, j, n, hS, hrest⟩
      · exact Or.inr ⟨i, j, n, hT, hrest⟩

/-- The elements in rows `r` to `r'` and columns `c` to `c'`. -/
def box (r r' c c' : ℕ) : ℕ → ℕ → Prop := fun i j => r ≤ i ∧ i < r' ∧ c ≤ j ∧ j < c'

section
variable {p : Prop} {r r' r'' c c' c'' : ℕ}

theorem or_box_rows (h : r ≤ r') (h' : r' ≤ r'') :
    (p ∨ box r r' c c' i j) ∨ box r' r'' c c' i j ↔ p ∨ box r r'' c c' i j := by
  rw [or_assoc]
  refine or_congr_right ?_
  simp only [box]
  omega

theorem or_box_cols (h : c ≤ c') (h' : c' ≤ c'') :
    (p ∨ box r r' c c' i j) ∨ box r r' c' c'' i j ↔ p ∨ box r r' c c'' i j := by
  rw [or_assoc]
  refine or_congr_right ?_
  simp only [box]
  omega

theorem or_box_empty (h : r' ≤ r ∨ c' ≤ c) : p ∨ box r r' c c' i j ↔ p := by
  refine or_iff_left ?_
  simp only [box]
  omega

end

/-! ### The kernel for bytes -/

/-- The loads for an element of one byte: 16 of them in the rows of full blocks. -/
def byteLoads (x : Matrices) (i j n : ℕ) : Prop :=
  i < x.rows / 16 * 16 ∧ j % 16 = 0 ∧ n = 16 ∨ x.rows / 16 * 16 ≤ i ∧ n = 1

/-- The columns of the block, last one first; `base` is column 0. -/
theorem storeColumns_spec {w : ℕ} (hw : 0 < w) (v0 : ℕ → Lanes) (base : Address) (stride k : ℕ)
    (hapart : ∀ c ≤ min (w - 1) k, ∀ d ≤ min (w - 1) k, c ≠ d → ∀ l : ℕ, l < 16 → ∀ l' : ℕ, l' < 16 →
      base + (c * stride : ℕ) + l ≠ base + (d * stride : ℕ) + l') (m : Memory UInt8) :
    ∃ m', storeColumns w (-stride) v0 k (base + (min (w - 1) k * stride : ℕ)) m = (base, m') ∧
      (∀ c ≤ min (w - 1) k, ∀ l : ℕ, l < 16 → m' (base + (c * stride : ℕ) + l) = v0 c l) ∧
      ∀ a, (∀ c ≤ min (w - 1) k, ∀ l : ℕ, l < 16 → a ≠ base + (c * stride : ℕ) + l) → m' a = m a := by
  induction k generalizing m with
  | zero =>
    refine ⟨store m base 16 (v0 0), by simp [storeColumns], ?_, ?_⟩
    · intro c hc l hl
      obtain rfl : c = 0 := by omega
      simpa using store_at hl (by decide)
    · intro a ha
      exact store_of_ne fun l hl => by simpa using ha 0 (by omega) l hl
  | succ k ih =>
    rcases Nat.lt_or_ge (k + 1) w with hin | hout
    · -- Column `k + 1` is in the block.
      have hmin : min (w - 1) (k + 1) = k + 1 := by omega
      have hmin' : min (w - 1) k = k := by omega
      rw [hmin] at hapart ⊢
      rw [hmin'] at ih
      have hback : base + ((k + 1) * stride : ℕ) + -(stride : Address) =
          base + (k * stride : ℕ) := by
        rw [Nat.succ_mul, Nat.cast_add, ← add_assoc, add_neg_cancel_right]
      obtain ⟨m', hrun, hwritten, hkept⟩ := ih (fun c hc d hd => hapart c (by omega) d (by omega))
        (store m (base + ((k + 1) * stride : ℕ)) 16 (v0 (k + 1)))
      refine ⟨m', by rw [storeColumns, if_pos hin, hback, hrun], ?_, ?_⟩
      · intro c hc l hl
        rcases Nat.lt_or_ge k c with hlast | hbefore
        · obtain rfl : c = k + 1 := by omega
          rw [hkept _ fun d hd l' hl' => hapart (k + 1) le_rfl d (by omega) (by omega) l hl l' hl']
          exact store_at hl (by decide)
        · exact hwritten c hbefore l hl
      · intro a ha
        rw [hkept a fun c hc => ha c (by omega)]
        exact store_of_ne (ha (k + 1) le_rfl)
    · -- Column `k + 1` is behind the block, and what is stored in its place comes later.
      have hmin : min (w - 1) (k + 1) = w - 1 := by omega
      have hmin' : min (w - 1) k = w - 1 := by omega
      rw [hmin] at hapart ⊢
      rw [hmin'] at ih
      obtain ⟨m', hrun, hwritten, hkept⟩ := ih hapart
        (store m (base + ((w - 1) * stride : ℕ)) 16 (v0 (k + 1)))
      refine ⟨m', by rw [storeColumns, if_neg (by omega), hrun], hwritten, ?_⟩
      intro a ha
      rw [hkept a ha]
      exact store_of_ne (ha (w - 1) le_rfl)

theorem inp_add (hx : x.size = 1) (r c k l : ℕ) :
    x.inp r c 0 + (k * x.cols : ℕ) + l = x.inp (r + k) (c + l) 0 := by
  simp only [inp, hx, add_add_offset]
  congr 2
  ring

theorem out_add (hx : x.size = 1) (r c d l : ℕ) :
    x.out r c 0 + (d * x.rows : ℕ) + l = x.out (r + l) (c + d) 0 := by
  simp only [out, hx, add_add_offset]
  congr 2
  ring

variable {r c w bh : ℕ} {t : State8}

/-- One block of 16 rows and up to 16 columns. -/
theorem tile8_done (hx : x.size = 1) (h : Done x m₀ (byteLoads x) S t.machine)
    (hi : t.i0 = x.inp r c 0) (ho : t.o + (16 : ℕ) = x.out r c 0) (hr : r + 16 ≤ x.rows / 16 * 16)
    (hw : 0 < w) (hc : c + w ≤ x.cols) (hc16 : c % 16 = 0) :
    (tile8 x.cols x.rows w t).i0 = x.inp (r + 16) c 0 ∧
    (tile8 x.cols x.rows w t).o + (16 : ℕ) = x.out (r + 16) c 0 ∧
    Done x m₀ (byteLoads x) (fun i j => S i j ∨ box r (r + 16) c (c + min w 16) i j)
      (tile8 x.cols x.rows w t).machine := by
  have hrows : r + 16 ≤ x.rows := by omega
  have hmin : min (w - 1) 15 + 1 = min w 16 := by omega
  have hstart : t.o + ((min (w - 1) 15 * x.rows + 16 : ℕ) : Address) =
      x.out r c 0 + (min (w - 1) 15 * x.rows : ℕ) := by
    rw [← ho, Nat.add_comm, add_add_offset]
  obtain ⟨m', hrun, hwritten, hkept⟩ := storeColumns_spec hw
    (zipNetwork fun k => vld1q t.machine.memory (t.i0 + (k * x.cols : ℕ))) (x.out r c 0) x.rows 15
    (by
      intro d hd d' hd' hne l hl l' hl' heq
      rw [out_add hx, out_add hx] at heq
      have hinj := out_inj (by omega) (by omega) (by omega) (by omega) (by omega) (by omega) heq
      omega) t.machine.memory
  have htile : tile8 x.cols x.rows w t =
      ⟨t.i0 + (16 * x.cols : ℕ), x.out r c 0, m', t.machine.loads ++
        (List.range 16).map fun k => (t.i0 + (k * x.cols : ℕ), 16)⟩ := by
    simp only [tile8, hstart, hrun]
  rw [htile, hi]
  refine ⟨?_, ?_, ?_⟩
  · simpa using inp_add hx r c 16 0
  · simpa using out_add hx r c 0 16
  have hrow : ∀ k l : ℕ, x.inp r c 0 + (k * x.cols : ℕ) + l = x.inp (r + k) (c + l) 0 :=
    inp_add hx r c
  refine h.step ⟨?_, ?_, ?_⟩ fun load => ?_
  · rintro i j ⟨-, hi, -, hj⟩
    omega
  · rintro i j b ⟨hri, hi, hcj, hj⟩ hb
    obtain rfl : b = 0 := by omega
    have hcell := hwritten (j - c) (by omega) (i - r) (by omega)
    rw [out_add hx, zipNetwork_apply _ (by omega) (by omega), vld1q, ‹t.i0 = _›, hrow] at hcell
    rw [show r + (i - r) = i by omega, show c + (j - c) = j by omega] at hcell
    rw [hcell, h.read (by omega) (by omega) (by omega)]
  · intro a ha
    refine hkept a fun d hd l hl => ?_
    rw [out_add hx]
    exact ha _ _ 0 ⟨by omega, by omega, by omega, by omega⟩ (by omega)
  · simp only [List.mem_map, List.mem_range]
    constructor
    · rintro ⟨k, hk, rfl⟩
      refine ⟨r + k, c, 16, ⟨by omega, by omega, le_rfl, by omega⟩, Or.inl ⟨by omega, hc16, rfl⟩, ?_⟩
      simpa using hrow k 0
    · rintro ⟨i, j, n, ⟨hri, hi, hcj, hj⟩, hP, rfl⟩
      rcases hP with ⟨-, hj16, rfl⟩ | ⟨hout, -⟩
      · obtain rfl : j = c := by omega
        refine ⟨i - r, by omega, ?_⟩
        have hload := hrow (i - r) 0
        rw [show r + (i - r) = i by omega] at hload
        simpa using hload
      · omega

/-- The loop over the rows. -/
theorem tiles8_done (hx : x.size = 1) (h : Done x m₀ (byteLoads x) S t.machine)
    (hi : t.i0 = x.inp r c 0) (ho : t.o + (16 : ℕ) = x.out r c 0) (hbh : bh % 16 = 0)
    (hr : r + bh ≤ x.rows / 16 * 16) (hw : 0 < w) (hc : c + w ≤ x.cols) (hc16 : c % 16 = 0) :
    (tiles8 x.cols x.rows w bh t).i0 = x.inp (r + bh) c 0 ∧
    (tiles8 x.cols x.rows w bh t).o + (16 : ℕ) = x.out (r + bh) c 0 ∧
    Done x m₀ (byteLoads x) (fun i j => S i j ∨ box r (r + bh) c (c + min w 16) i j)
      (tiles8 x.cols x.rows w bh t).machine := by
  induction bh using Nat.strong_induction_on generalizing r t S with
  | h bh ih =>
    rw [tiles8]
    rcases Nat.lt_or_ge bh 16 with hlast | hmore
    · obtain rfl : bh = 0 := by omega
      rw [if_neg (by omega)]
      exact ⟨hi, ho, h.congr fun i j => (or_box_empty (Or.inl le_rfl)).symm⟩
    · rw [if_pos hmore]
      obtain ⟨hi', ho', h'⟩ := tile8_done hx h hi ho (by omega) hw hc hc16
      obtain ⟨hi'', ho'', h''⟩ := ih (bh - 16) (by omega) h' hi' ho' (by omega) (by omega)
      have hend : r + 16 + (bh - 16) = r + bh := by omega
      rw [hend] at hi'' ho'' h''
      exact ⟨hi'', ho'', h''.congr fun i j => or_box_rows (by omega) (by omega)⟩

/-- The loop over the columns. -/
theorem columns8_done (hx : x.size = 1) (h : Done x m₀ (byteLoads x) S t.machine)
    (hi : t.i0 = x.inp r c 0) (ho : t.o + (16 : ℕ) = x.out r c 0) (hbh : bh % 16 = 0)
    (hlt : bh < 2 ^ 64) (hr : r + bh ≤ x.rows / 16 * 16) (hw : 0 < w) (hc : c + w ≤ x.cols)
    (hc16 : c % 16 = 0) :
    Done x m₀ (byteLoads x) (fun i j => S i j ∨ box r (r + bh) c (c + w) i j)
      (columns8 x.cols x.rows bh w t).machine := by
  induction w using Nat.strong_induction_on generalizing c t S with
  | h w ih =>
    obtain ⟨hi', ho', h'⟩ := tiles8_done hx h hi ho hbh hr hw hc hc16
    rw [columns8]
    rcases Nat.lt_or_ge 16 w with hmore | hlast
    · rw [if_neg (by omega)]
      rw [Nat.min_eq_right hmore.le] at h'
      have hround : roundDownPo2 bh 16 = bh := by
        rw [roundDownPo2_sixteen hlt]
        omega
      have hround' : roundDownPo2 bh 2 = bh := by
        rw [roundDownPo2_two hlt]
        omega
      have hnexti : x.inp (r + bh) c 0 + (((16 : ℕ) : Address) - (bh * x.cols : ℕ)) =
          x.inp r (c + 16) 0 := by
        simp only [inp, hx]
        rw [show ((r + bh) * x.cols + c) * 1 + 0 = r * x.cols + c + bh * x.cols by ring,
          add_offset_add_sub]
        congr 2
        ring
      have hnexto : x.out (r + bh) c 0 + (((16 * x.rows : ℕ) : Address) - (bh : ℕ) - (16 : ℕ)) +
          (16 : ℕ) = x.out r (c + 16) 0 := by
        rw [add_assoc, sub_add_cancel]
        simp only [out, hx]
        rw [show (c * x.rows + (r + bh)) * 1 + 0 = c * x.rows + r + bh by ring, add_offset_add_sub]
        congr 2
        ring
      rw [hi', ho', hround, hround']
      have hrest := ih (w - 16) (by omega) (c := c + 16)
        (t := ⟨x.inp (r + bh) c 0 + (((16 : ℕ) : Address) - (bh * x.cols : ℕ)),
          x.out (r + bh) c 0 + (((16 * x.rows : ℕ) : Address) - (bh : ℕ) - (16 : ℕ)),
          (tiles8 x.cols x.rows w bh t).machine⟩) h' hnexti hnexto (by omega) (by omega) (by omega)
      rw [show c + 16 + (w - 16) = c + w by omega] at hrest
      exact hrest.congr fun i j => or_box_cols (by omega) (by omega)
    · rw [if_pos hlast]
      rwa [Nat.min_eq_left hlast] at h'

/-- `xnn_x8_transposec_ukernel__16x16_reuse_mov_zip_neon` on full blocks of rows. -/
theorem x8TransposecUkernel_done (hx : x.size = 1) (h : Done x m₀ (byteLoads x) S s)
    (hbh : bh % 16 = 0) (hlt : bh < 2 ^ 64) (hr : r + bh ≤ x.rows / 16 * 16) (hw : 0 < w)
    (hc : c + w ≤ x.cols) (hc16 : c % 16 = 0) :
    Done x m₀ (byteLoads x) (fun i j => S i j ∨ box r (r + bh) c (c + w) i j)
      (x8TransposecUkernel (x.inp r c 0) (x.out r c 0) x.cols x.rows w bh s) :=
  columns8_done hx (t := ⟨x.inp r c 0, x.out r c 0 - (16 : ℕ), s⟩) h rfl (sub_add_cancel _ _) hbh hlt
    hr hw hc hc16

/-! ### The kernel for elements of four bytes -/

/-- The loads for an element of four bytes: 16 in the columns of full blocks. -/
def wordLoads (x : Matrices) (_ j n : ℕ) : Prop :=
  j < x.cols / 4 * 4 ∧ j % 4 = 0 ∧ n = 16 ∨ x.cols / 4 * 4 ≤ j ∧ n = 4

theorem inp_add_four (hx : x.size = 4) (r c k l : ℕ) :
    x.inp r c 0 + (k * (x.cols * 4) + l : ℕ) = x.inp (r + k) (c + l / 4) (l % 4) := by
  simp only [inp, hx, add_add_offset]
  congr 2
  have hl := Nat.div_add_mod' l 4
  ring_nf
  omega

theorem out_add_four (hx : x.size = 4) (r c d l : ℕ) :
    x.out r c 0 + (d * (x.rows * 4) + l : ℕ) = x.out (r + l / 4) (c + d) (l % 4) := by
  simp only [out, hx, add_add_offset]
  congr 2
  have hl := Nat.div_add_mod' l 4
  ring_nf
  omega

variable {h n : ℕ} {o i₄ : ℕ → Address} {vres : ℕ → Lanes}

theorem out_lane (hx : x.size = 4) (r c l : ℕ) : x.out r c 0 + l = x.out (r + l / 4) c (l % 4) := by
  simpa using out_add_four hx r c 0 l

theorem inp_lane (hx : x.size = 4) (r c l : ℕ) : x.inp r c 0 + l = x.inp r (c + l / 4) (l % 4) := by
  simpa using inp_add_four hx r c 0 l

/-- Four columns of `h` elements each. -/
theorem store32_fills (hx : x.size = 4) (hn : n = h * 4) (hh : h ≤ 4)
    (ho : ∀ d < 4, o d = x.out r (c + d) 0)
    (hv : ∀ d < 4, ∀ l < n, vres d l = m₀ (x.inp (r + l / 4) (c + d) (l % 4)))
    (hr : r + h ≤ x.rows) (hc : c + 4 ≤ x.cols) :
    Fills x m₀ (box r (r + h) c (c + 4)) m (store32 n o vres m) := by
  have hcell : ∀ d < 4, ∀ l : ℕ, o d + l = x.out (r + l / 4) (c + d) (l % 4) := by
    intro d hd l
    rw [ho d hd, out_lane hx]
  have hblocks : ∀ d, d ∈ [3, 2, 1, 0] ↔ d < 4 := by
    intro d
    simp only [List.mem_cons, List.not_mem_nil, or_false]
    omega
  refine ⟨?_, ?_, ?_⟩
  · rintro i j ⟨-, hi, -, hj⟩
    omega
  · rintro i j b ⟨hri, hi, hcj, hj⟩ hb
    have hl : (i - r) * 4 + b < n := by omega
    have hat : store32 n o vres m (o (j - c) + ((i - r) * 4 + b : ℕ)) =
        vres (j - c) ((i - r) * 4 + b) := by
      refine storeAll_at ((hblocks _).mpr (by omega)) hl (by omega) (by decide) ?_
      intro d hd d' hd' hne l hl l' hl' heq
      rw [hblocks] at hd hd'
      rw [hcell d hd, hcell d' hd'] at heq
      have hinj := out_inj (by omega) (by omega) (by omega) (by omega) (by omega) (by omega) heq
      omega
    have hrow : r + ((i - r) * 4 + b) / 4 = i := by omega
    have hcol : c + (j - c) = j := by omega
    have hbyte : ((i - r) * 4 + b) % 4 = b := by omega
    rw [hcell _ (by omega), hv _ (by omega) _ hl, hrow, hcol, hbyte] at hat
    exact hat
  · intro a ha
    refine storeAll_of_ne fun d hd l hl => ?_
    rw [hblocks] at hd
    rw [hcell d hd]
    exact ha _ _ _ ⟨by omega, by omega, by omega, by omega⟩ (by omega)

/-- Pointers to `h` rows, a row behind them being row 0 again. -/
def AtRows (x : Matrices) (i₄ : ℕ → Address) (r c h : ℕ) : Prop :=
  ∀ k < 4, i₄ k = x.inp (r + if k < h then k else 0) c 0

theorem mem_loads32 (hi : AtRows x i₄ r c h) (hpos : 0 < h) (hh : h ≤ 4) (hc : c + 4 ≤ x.cols)
    (hc4 : c % 4 = 0) (load : Address × ℕ) :
    load ∈ loads32 i₄ ↔ ∃ i j n, box r (r + h) c (c + 4) i j ∧ wordLoads x i j n ∧
      load = (x.inp i j 0, n) := by
  simp only [loads32, List.mem_map, List.mem_range]
  constructor
  · rintro ⟨k, hk, rfl⟩
    refine ⟨r + if k < h then k else 0, c, 16, ⟨by omega, ?_, le_rfl, by omega⟩,
      Or.inl ⟨by omega, hc4, rfl⟩, by rw [hi k hk]⟩
    split <;> omega
  · rintro ⟨i, j, n, ⟨hri, hi', hcj, hj⟩, hP, rfl⟩
    rcases hP with ⟨-, hj4, rfl⟩ | ⟨hout, -⟩
    · obtain rfl : j = c := by omega
      refine ⟨i - r, by omega, ?_⟩
      rw [hi _ (by omega), if_pos (by omega), show r + (i - r) = i by omega]
    · omega

/-- What `vqtbl4q_u8` finds in the registers that were loaded from the rows. -/
theorem vres_eq (hx : x.size = 4) (hdone : Done x m₀ P S s) (hi : AtRows x i₄ r c h)
    (hr : r + h ≤ x.rows) (hc : c + 4 ≤ x.cols) {d l : ℕ} (hd : d < 4) (hl : l < 16) (hlh : l / 4 < h) :
    vqtbl4q (fun k => vld1q s.memory (i₄ k)) (vperm d) l = m₀ (x.inp (r + l / 4) (c + d) (l % 4)) := by
  rw [vqtbl4q_vperm _ hd hl, vld1q, hi _ (by omega), if_pos hlh, inp_lane hx]
  have hcol : c + (4 * d + l % 4) / 4 = c + d := by omega
  have hbyte : (4 * d + l % 4) % 4 = l % 4 := by omega
  rw [hcol, hbyte]
  exact hdone.read (by omega) (by omega) (by omega)

variable {u : State32}

/-- One block of four rows and four columns. -/
theorem tile32_done (hx : x.size = 4) (hdone : Done x m₀ (wordLoads x) S u.machine)
    (hi : AtRows x u.i r c 4) (ho : ∀ d < 4, u.o d = x.out r (c + d) 0) (hr : r + 4 ≤ x.rows)
    (hc : c + 4 ≤ x.cols) (hc4 : c % 4 = 0) :
    AtRows x (tile32 (4 * (x.cols * 4)) u).i (r + 4) c 4 ∧
    (∀ d < 4, (tile32 (4 * (x.cols * 4)) u).o d = x.out (r + 4) (c + d) 0) ∧
    Done x m₀ (wordLoads x) (fun i j => S i j ∨ box r (r + 4) c (c + 4) i j)
      (tile32 (4 * (x.cols * 4)) u).machine := by
  refine ⟨fun k hk => ?_, fun d hd => ?_, hdone.step ?_ ?_⟩
  · have hnext := inp_add_four hx (r + k) c 4 0
    simp only [tile32, hi k hk, if_pos hk]
    rw [show r + 4 + k = r + k + 4 by omega]
    simpa using hnext
  · simp only [tile32, ho d hd]
    simpa using out_lane hx r (c + d) 16
  · exact store32_fills hx rfl le_rfl ho
      (fun d hd l hl => vres_eq hx hdone hi hr hc hd hl (by omega)) hr hc
  · exact mem_loads32 hi (by decide) le_rfl hc hc4

/-- The loop over the rows leaves the last `bh % 4` of them. -/
theorem tiles32_done (hx : x.size = 4) (hdone : Done x m₀ (wordLoads x) S u.machine)
    (hi : 4 ≤ bh → AtRows x u.i r c 4) (ho : ∀ d < 4, u.o d = x.out r (c + d) 0)
    (hr : r + bh ≤ x.rows) (hc : c + 4 ≤ x.cols) (hc4 : c % 4 = 0) :
    (tiles32 (4 * (x.cols * 4)) bh u).2 = bh % 4 ∧
    (4 ≤ bh → AtRows x (tiles32 (4 * (x.cols * 4)) bh u).1.i (r + bh / 4 * 4) c 4) ∧
    (bh < 4 → (tiles32 (4 * (x.cols * 4)) bh u).1.i = u.i) ∧
    (∀ d < 4, (tiles32 (4 * (x.cols * 4)) bh u).1.o d = x.out (r + bh / 4 * 4) (c + d) 0) ∧
    Done x m₀ (wordLoads x) (fun i j => S i j ∨ box r (r + bh / 4 * 4) c (c + 4) i j)
      (tiles32 (4 * (x.cols * 4)) bh u).1.machine := by
  induction bh using Nat.strong_induction_on generalizing r u S with
  | h bh ih =>
    rw [tiles32]
    rcases Nat.lt_or_ge bh 4 with hlast | hmore
    · rw [if_neg (by omega)]
      rw [show r + bh / 4 * 4 = r by omega]
      exact ⟨by omega, by omega, fun _ => rfl, ho,
        hdone.congr fun i j => (or_box_empty (Or.inl le_rfl)).symm⟩
    · rw [if_pos hmore]
      obtain ⟨hi', ho', hdone'⟩ := tile32_done hx hdone (hi hmore) ho (by omega) hc hc4
      obtain ⟨hbh, hrows, hsame, ho'', hdone''⟩ :=
        ih (bh - 4) (by omega) hdone' (fun _ => hi') ho' (by omega)
      have hend : r + 4 + (bh - 4) / 4 * 4 = r + bh / 4 * 4 := by omega
      rw [hend] at hrows ho'' hdone''
      refine ⟨by omega, fun _ => ?_, by omega, ho'',
        hdone''.congr fun i j => or_box_rows (by omega) (by omega)⟩
      rcases Nat.lt_or_ge (bh - 4) 4 with hlast | hmore'
      · rw [hsame hlast, show r + bh / 4 * 4 = r + 4 by omega]
        exact hi'
      · exact hrows hmore'

/-- The stores of the last rows, two of them at once. -/
theorem rest32_fills (hx : x.size = 4) (hpos : 0 < bh) (hlt : bh < 4)
    (ho : ∀ d < 4, o d = x.out r (c + d) 0)
    (hv : ∀ d < 4, ∀ l < 16, l / 4 < bh → vres d l = m₀ (x.inp (r + l / 4) (c + d) (l % 4)))
    (hr : r + bh ≤ x.rows) (hc : c + 4 ≤ x.cols) :
    Fills x m₀ (box r (r + bh) c (c + 4)) m
      (let pair := bh &&& 2 ≠ 0
      let memory := if pair then store32 8 o vres m else m
      if bh &&& 1 ≠ 0 then
        store32 4 (fun d => if pair then o d + (8 : ℕ) else o d)
          (fun d => if pair then vgetHigh (vres d) else vres d) memory
      else memory) := by
  obtain rfl | rfl | rfl : bh = 1 ∨ bh = 2 ∨ bh = 3 := by omega
  · exact store32_fills hx (h := 1) rfl (by decide) ho
      (fun d hd l hl => hv d hd l (by omega) (by omega)) hr hc
  · exact store32_fills hx (h := 2) rfl (by decide) ho
      (fun d hd l hl => hv d hd l (by omega) (by omega)) hr hc
  · have hlow : Fills x m₀ (box r (r + 2) c (c + 4)) m (store32 8 o vres m) :=
      store32_fills hx (h := 2) rfl (by decide) ho
        (fun d hd l hl => hv d hd l (by omega) (by omega)) (by omega) hc
    have hhigh : Fills x m₀ (box (r + 2) (r + 2 + 1) c (c + 4)) (store32 8 o vres m)
        (store32 4 (fun d => o d + (8 : ℕ)) (fun d => vgetHigh (vres d)) (store32 8 o vres m)) := by
      refine store32_fills hx (h := 1) rfl (by decide) (fun d hd => ?_) (fun d hd l hl => ?_) hr hc
      · rw [ho d hd]
        exact out_lane hx r (c + d) 8
      · have hlane := hv d hd (8 + l) (by omega) (by omega)
        rw [show r + (8 + l) / 4 = r + 2 + l / 4 by omega, show (8 + l) % 4 = l % 4 by omega] at hlane
        exact hlane
    refine (hlow.trans hhigh).congr fun i j => ?_
    simp only [box]
    omega

/-- The last rows. -/
theorem rest32_done (hx : x.size = 4) (hdone : Done x m₀ (wordLoads x) S u.machine) (hpos : 0 < bh)
    (hlt : bh < 4) (hi : ∀ k < bh, u.i k = x.inp (r + k) c 0)
    (ho : ∀ d < 4, u.o d = x.out r (c + d) 0) (hr : r + bh ≤ x.rows) (hc : c + 4 ≤ x.cols)
    (hc4 : c % 4 = 0) :
    (rest32 bh u).i 0 = u.i 0 ∧
    (∀ d < 4, (rest32 bh u).o d = x.out (r + bh / 2 * 2) (c + d) 0) ∧
    Done x m₀ (wordLoads x) (fun i j => S i j ∨ box r (r + bh) c (c + 4) i j) (rest32 bh u).machine := by
  have hrows : AtRows x (fun k => if bh ≤ k then u.i 0 else u.i k) r c bh := by
    intro k hk
    rcases Nat.lt_or_ge k bh with hin | hout
    · simp only [Nat.not_le.mpr hin, hin, if_true, if_false]
      exact hi k hin
    · simp only [hout, Nat.not_lt.mpr hout, if_true, if_false]
      exact hi 0 hpos
  refine ⟨by simp [rest32], fun d hd => ?_, hdone.step ?_ (mem_loads32 hrows hpos hlt.le hc hc4)⟩
  · have hpair : u.o d + (8 : ℕ) = x.out (r + 2) (c + d) 0 := by
      rw [ho d hd]
      exact out_lane hx r (c + d) 8
    obtain rfl | rfl | rfl : bh = 1 ∨ bh = 2 ∨ bh = 3 := by omega
    · exact ho d hd
    · exact hpair
    · exact hpair
  · exact rest32_fills hx hpos hlt ho
      (fun d hd l hl hlh => vres_eq hx hdone hrows hr hc hd hl hlh) hr hc

/-- Four columns of all rows. -/
theorem column32_done (hx : x.size = 4) (hdone : Done x m₀ (wordLoads x) S u.machine) (hpos : 0 < bh)
    (hi : ∀ k < 4, u.i k = rowPointer (x.inp r c 0) (x.cols * 4) bh k)
    (ho : ∀ d < 4, u.o d = x.out r (c + d) 0) (hr : r + bh ≤ x.rows) (hc : c + 4 ≤ x.cols)
    (hc4 : c % 4 = 0) :
    (column32 (4 * (x.cols * 4)) bh u).i 0 = x.inp (r + bh / 4 * 4) c 0 ∧
    (∀ d < 4, (column32 (4 * (x.cols * 4)) bh u).o d = x.out (r + bh / 2 * 2) (c + d) 0) ∧
    Done x m₀ (wordLoads x) (fun i j => S i j ∨ box r (r + bh) c (c + 4) i j)
      (column32 (4 * (x.cols * 4)) bh u).machine := by
  have hrow : ∀ k < 4, k < bh → u.i k = x.inp (r + k) c 0 := by
    intro k hk hkbh
    rw [hi k hk, rowPointer, if_pos hkbh]
    exact inp_add_four hx r c k 0
  obtain ⟨hleft, hat, hsame, ho', hdone'⟩ := tiles32_done hx hdone
    (fun h4 k hk => by rw [if_pos hk]; exact hrow k hk (by omega)) ho hr hc hc4
  have hrest : ∀ k < 4, k < bh → (tiles32 (4 * (x.cols * 4)) bh u).1.i k =
      x.inp (r + bh / 4 * 4 + k) c 0 := by
    intro k hk hkbh
    rcases Nat.lt_or_ge bh 4 with hlt | hge
    · rw [hsame hlt, hrow k hk hkbh, show r + bh / 4 * 4 = r by omega]
    · rw [hat hge k hk, if_pos hk]
  have hstart := hrest 0 (by decide) hpos
  simp only [column32, hleft]
  rcases Nat.eq_zero_or_pos (bh % 4) with hzero | hsome
  · have hend : r + bh / 4 * 4 = r + bh := by omega
    have hend' : r + bh / 2 * 2 = r + bh := by omega
    rw [if_neg (by omega), hend']
    rw [hend] at hdone' ho'
    exact ⟨hstart, ho', hdone'⟩
  · obtain ⟨hi', ho'', hdone''⟩ := rest32_done hx hdone' hsome (by omega)
      (fun k hk => hrest k (by omega) (by omega)) ho' (by omega) hc hc4
    have hend : r + bh / 4 * 4 + bh % 4 = r + bh := by omega
    have hend' : r + bh / 4 * 4 + bh % 4 / 2 * 2 = r + bh / 2 * 2 := by omega
    rw [hend] at hdone''
    rw [hend'] at ho''
    rw [if_pos (by omega)]
    exact ⟨hi'.trans hstart, ho'', hdone''.congr fun i j => or_box_rows (by omega) (by omega)⟩

/-- The loop over the columns. -/
theorem columns32_done (hx : x.size = 4) (hdone : Done x m₀ (wordLoads x) S u.machine) (hpos : 0 < bh)
    (hlt : bh < 2 ^ 64) (hi : ∀ k < 4, u.i k = rowPointer (x.inp r c 0) (x.cols * 4) bh k)
    (ho : ∀ d < 4, u.o d = x.out r (c + d) 0) (hr : r + bh ≤ x.rows) (hw : 0 < w) (hw4 : w % 4 = 0)
    (hc : c + w ≤ x.cols) (hc4 : c % 4 = 0) :
    Done x m₀ (wordLoads x) (fun i j => S i j ∨ box r (r + bh) c (c + w) i j)
      (columns32 (x.cols * 4) (x.rows * 4) bh w u).machine := by
  induction w using Nat.strong_induction_on generalizing c u S with
  | h w ih =>
    obtain ⟨hi', ho', hdone'⟩ := column32_done hx
      (u := { u with o := fun d => if w ≤ d then u.o 0 else u.o d }) hdone hpos hi
      (fun d hd => by simp only [if_neg (show ¬ w ≤ d by omega)]; exact ho d hd) hr (by omega) hc4
    rw [columns32]
    generalize column32 (4 * (x.cols * 4)) bh
      { u with o := fun d => if w ≤ d then u.o 0 else u.o d } = v at hi' ho' hdone'
    rcases Nat.lt_or_ge 4 w with hmore | hlast
    · rw [if_neg (by omega), roundDownPo2_four hlt, roundDownPo2_two hlt]
      have hnexti : x.inp (r + bh / 4 * 4) c 0 +
          (((16 : ℕ) : Address) - (bh / 4 * 4 * (x.cols * 4) : ℕ)) = x.inp r (c + 4) 0 := by
        simp only [inp, hx]
        rw [show ((r + bh / 4 * 4) * x.cols + c) * 4 + 0 =
          (r * x.cols + c) * 4 + bh / 4 * 4 * (x.cols * 4) by ring, add_offset_add_sub]
        congr 2
        ring
      have hnexto : ∀ d, x.out (r + bh / 2 * 2) (c + d) 0 +
          (((4 * (x.rows * 4) : ℕ) : Address) - (bh / 2 * 2 * 4 : ℕ)) = x.out r (c + 4 + d) 0 := by
        intro d
        simp only [out, hx]
        rw [show ((c + d) * x.rows + (r + bh / 2 * 2)) * 4 + 0 =
          ((c + d) * x.rows + r) * 4 + bh / 2 * 2 * 4 by ring, add_offset_add_sub]
        congr 2
        ring
      have hrest := ih (w - 4) (by omega) (c := c + 4)
        (u := ⟨rowPointer (v.i 0 + (((16 : ℕ) : Address) - (bh / 4 * 4 * (x.cols * 4) : ℕ)))
          (x.cols * 4) bh, fun d => v.o d + (((4 * (x.rows * 4) : ℕ) : Address) -
            (bh / 2 * 2 * 4 : ℕ)), v.machine⟩) hdone'
        (fun k hk => by rw [hi', hnexti]) (fun d hd => by simp only [ho' d hd, hnexto]) (by omega) (by omega)
        (by omega) (by omega)
      rw [show c + 4 + (w - 4) = c + w by omega] at hrest
      exact hrest.congr fun i j => or_box_cols (by omega) (by omega)
    · rw [if_pos hlast]
      rwa [show c + w = c + 4 by omega]

/-- `xnn_x32_transposec_ukernel__4x4_aarch64_neon_tbl128` on full blocks of columns. -/
theorem x32TransposecUkernel_done (hx : x.size = 4) (hdone : Done x m₀ (wordLoads x) S s)
    (hpos : 0 < bh) (hlt : bh < 2 ^ 64) (hr : r + bh ≤ x.rows) (hw : 0 < w) (hw4 : w % 4 = 0)
    (hc : c + w ≤ x.cols) (hc4 : c % 4 = 0) :
    Done x m₀ (wordLoads x) (fun i j => S i j ∨ box r (r + bh) c (c + w) i j)
      (x32TransposecUkernel (x.inp r c 0) (x.out r c 0) (x.cols * 4) (x.rows * 4) w bh s) := by
  rw [x32TransposecUkernel, if_neg (by omega)]
  refine columns32_done hx (u := ⟨rowPointer (x.inp r c 0) (x.cols * 4) bh,
    rowPointer (x.out r c 0) (x.rows * 4) w, s⟩) hdone hpos hlt (fun k hk => rfl) (fun d hd => ?_) hr hw
    hw4 hc hc4
  simp only [rowPointer, if_pos (show d < w by omega)]
  exact out_add_four hx r c d 0

/-! ### Element by element -/

theorem copyElement_done (hdone : Done x m₀ P S s) {i j : ℕ} (hi : i < x.rows) (hj : j < x.cols)
    (hP : ∀ n, P i j n ↔ n = x.size) :
    Done x m₀ P (fun i' j' => S i' j' ∨ box i (i + 1) j (j + 1) i' j')
      (copyElement x.size (x.out i j 0) (x.inp i j 0) s) := by
  have htotal := x.total
  have hsize : ∀ b < x.size, x.out i j 0 + b = x.out i j b ∧ x.inp i j 0 + b = x.inp i j b := by
    intro b _
    simp only [out, inp, add_add_offset, Nat.add_zero, and_self]
  refine hdone.step ⟨?_, ?_, ?_⟩ fun load => ?_
  · rintro i' j' ⟨hi', hi'', hj', hj''⟩
    omega
  · rintro i' j' b ⟨hi', hi'', hj', hj''⟩ hb
    obtain rfl : i' = i := by omega
    obtain rfl : j' = j := by omega
    have hle : x.size ≤ 2 ^ 64 := by
      have hlt := (inp_lt hi hj hb).trans htotal
      have hlast := inp_lt hi hj (show x.size - 1 < x.size by omega)
      omega
    rw [← (hsize b hb).1, store_at hb hle, (hsize b hb).2]
    exact hdone.read hi hj hb
  · intro a ha
    refine store_of_ne fun l hl => ?_
    rw [(hsize l hl).1]
    exact ha i j l ⟨le_rfl, by omega, le_rfl, by omega⟩ hl
  · rw [List.mem_singleton]
    constructor
    · rintro rfl
      exact ⟨i, j, x.size, ⟨le_rfl, by omega, le_rfl, by omega⟩, (hP _).mpr rfl, rfl⟩
    · rintro ⟨i', j', n, ⟨hi', hi'', hj', hj''⟩, hn, rfl⟩
      obtain rfl : i' = i := by omega
      obtain rfl : j' = j := by omega
      rw [(hP n).mp hn]

variable {k l : ℕ}

/-- One row of the scalar loops. -/
theorem scalarRow_done (hdone : Done x m₀ P S s) (hr : r + k < x.rows) (hc : c + l + n ≤ x.cols)
    (hP : ∀ j, c + l ≤ j → j < c + l + n → ∀ e, P (r + k) j e ↔ e = x.size) :
    Done x m₀ P (fun i j => S i j ∨ box (r + k) (r + k + 1) (c + l) (c + l + n) i j)
      ((List.range' l n).foldl (fun s l => copyElement x.size
        (x.out r c 0 + ((l * x.rows + k) * x.size : ℕ))
        (x.inp r c 0 + ((k * x.cols + l) * x.size : ℕ)) s) s) := by
  induction n generalizing l S s with
  | zero => exact hdone.congr fun i j => (or_box_empty (Or.inr le_rfl)).symm
  | succ n ih =>
    have hdst : x.out r c 0 + ((l * x.rows + k) * x.size : ℕ) = x.out (r + k) (c + l) 0 := by
      simp only [out, add_add_offset]
      congr 2
      ring
    have hsrc : x.inp r c 0 + ((k * x.cols + l) * x.size : ℕ) = x.inp (r + k) (c + l) 0 := by
      simp only [inp, add_add_offset]
      congr 2
      ring
    rw [List.range'_succ, List.foldl_cons, hdst, hsrc]
    have hcopy := copyElement_done hdone hr (show c + l < x.cols by omega)
      (hP _ le_rfl (by omega))
    have hrest := ih hcopy (l := l + 1) (by omega) fun j hj hj' => hP j (by omega) (by omega)
    rw [show c + (l + 1) = c + l + 1 by omega, show c + l + 1 + n = c + l + (n + 1) by omega] at hrest
    exact hrest.congr fun i j => or_box_cols (by omega) (by omega)

/-- The scalar loops. -/
theorem scalarLoop_done {bw : ℕ} (hdone : Done x m₀ P S s) (hk : k ≤ bh) (hl : l ≤ bw)
    (hr : r + bh ≤ x.rows) (hc : c + bw ≤ x.cols)
    (hP : ∀ i j, box (r + k) (r + bh) (c + l) (c + bw) i j → ∀ e, P i j e ↔ e = x.size) :
    Done x m₀ P (fun i j => S i j ∨ box (r + k) (r + bh) (c + l) (c + bw) i j)
      (scalarLoop x.size (x.inp r c 0) (x.out r c 0) x.cols x.rows k bh l bw s) := by
  obtain ⟨n, rfl⟩ := Nat.exists_eq_add_of_le hk
  rw [scalarLoop, Nat.add_sub_cancel_left]
  clear hk
  induction n generalizing k S s with
  | zero => exact hdone.congr fun i j => (or_box_empty (Or.inl le_rfl)).symm
  | succ n ih =>
    have hrow := scalarRow_done hdone (r := r) (c := c) (k := k) (l := l) (n := bw - l) (by omega)
      (by omega) fun j hj hj' => hP (r + k) j ⟨by omega, by omega, by omega, by omega⟩
    rw [show c + l + (bw - l) = c + bw by omega] at hrow
    have hrest := ih hrow (k := k + 1) (by omega) fun i j hbox =>
      hP i j ⟨by have := hbox.1; omega, by have := hbox.2.1; omega, hbox.2.2⟩
    rw [show r + (k + 1) = r + k + 1 by omega, show r + (k + 1 + n) = r + (k + (n + 1)) by omega]
      at hrest
    rw [List.range'_succ, List.foldl_cons]
    exact hrest.congr fun i j => or_box_rows (by omega) (by omega)

/-! ### Blocks -/

/-- The loads of the vector kernels and of what they leave over. -/
def vectorLoads (x : Matrices) (i j n : ℕ) : Prop :=
  if x.size = 1 then byteLoads x i j n else wordLoads x i j n

theorem rows_lt (hx : 0 < x.size) (hcols : 0 < x.cols) : x.rows < 2 ^ 64 := by
  have hle : x.rows * 1 * 1 ≤ x.rows * x.cols * x.size :=
    Nat.mul_le_mul (Nat.mul_le_mul_left _ hcols) hx
  have htotal := x.total
  omega

theorem cols_lt (hx : 0 < x.size) (hrows : 0 < x.rows) : x.cols < 2 ^ 64 := by
  have hle : 1 * x.cols * 1 ≤ x.rows * x.cols * x.size :=
    Nat.mul_le_mul (Nat.mul_le_mul_right _ hrows) hx
  have htotal := x.total
  omega

variable {bw : ℕ}

/-- A block that starts at a multiple of 16 and ends at one or at the end of the matrix. -/
structure Block (x : Matrices) (r bh c bw : ℕ) : Prop where
  rowsPos : 0 < bh
  colsPos : 0 < bw
  rowStart : r % 16 = 0
  colStart : c % 16 = 0
  rowEnd : bh % 16 = 0 ∨ r + bh = x.rows
  colEnd : bw % 16 = 0 ∨ c + bw = x.cols
  rowsIn : r + bh ≤ x.rows
  colsIn : c + bw ≤ x.cols

theorem byteBlock_done (hx : x.size = 1) (hb : Block x r bh c bw)
    (hdone : Done x m₀ (byteLoads x) S s) :
    Done x m₀ (byteLoads x) (fun i j => S i j ∨ box r (r + bh) c (c + bw) i j)
      (transposeBlock x.size (x.inp r c 0) (x.out r c 0) (x.cols * x.size) (x.rows * x.size) x.cols
        x.rows bh bw s) := by
  obtain ⟨hrowsPos, hcolsPos, hrowStart, hcolStart, hrowEnd, -, hrowsIn, hcolsIn⟩ := hb
  have hlt : bh < 2 ^ 64 := lt_of_le_of_lt (by omega) (rows_lt (x := x) (by omega) (by omega))
  have hkernel : Done x m₀ (byteLoads x) (fun i j => S i j ∨ box r (r + bh / 16 * 16) c (c + bw) i j)
      (if 0 < bh / 16 * 16 then
        x8TransposecUkernel (x.inp r c 0) (x.out r c 0) x.cols x.rows bw (bh / 16 * 16) s else s) := by
    split
    · exact x8TransposecUkernel_done hx hdone (by omega) (by omega) (by omega) hcolsPos hcolsIn
        hcolStart
    · exact hdone.congr fun i j => (or_box_empty (Or.inl (by omega))).symm
  have hrest := scalarLoop_done hkernel (r := r) (c := c) (k := bh / 16 * 16) (l := 0) (by omega)
    (Nat.zero_le bw) hrowsIn hcolsIn fun i j hbox e => by
      have hrow : x.rows / 16 * 16 ≤ i := by
        have hlow := hbox.1
        have hhigh := hbox.2.1
        omega
      rw [byteLoads, hx]
      omega
  rw [transposeBlock, if_pos hx, roundDownPo2_sixteen hlt]
  rw [hx] at hrest ⊢
  simp only [Nat.mul_one, Nat.add_zero] at hrest ⊢
  exact hrest.congr fun i j => or_box_rows (by omega) (by omega)

theorem wordBlock_done (hx : x.size = 4) (hb : Block x r bh c bw)
    (hdone : Done x m₀ (wordLoads x) S s) :
    Done x m₀ (wordLoads x) (fun i j => S i j ∨ box r (r + bh) c (c + bw) i j)
      (transposeBlock x.size (x.inp r c 0) (x.out r c 0) (x.cols * x.size) (x.rows * x.size) x.cols
        x.rows bh bw s) := by
  obtain ⟨hrowsPos, hcolsPos, -, hcolStart, -, hcolEnd, hrowsIn, hcolsIn⟩ := hb
  have hlt : bh < 2 ^ 64 := lt_of_le_of_lt (by omega) (rows_lt (x := x) (by omega) (by omega))
  have hlt' : bw < 2 ^ 64 := lt_of_le_of_lt (by omega) (cols_lt (x := x) (by omega) (by omega))
  have hkernel : Done x m₀ (wordLoads x) (fun i j => S i j ∨ box r (r + bh) c (c + bw / 4 * 4) i j)
      (if 0 < bw / 4 * 4 then
        x32TransposecUkernel (x.inp r c 0) (x.out r c 0) (x.cols * 4) (x.rows * 4) (bw / 4 * 4) bh s
        else s) := by
    split
    · exact x32TransposecUkernel_done hx hdone hrowsPos hlt hrowsIn (by omega) (by omega) (by omega)
        (by omega)
    · exact hdone.congr fun i j => (or_box_empty (Or.inr (by omega))).symm
  have hrest := scalarLoop_done hkernel (r := r) (c := c) (k := 0) (l := bw / 4 * 4) (Nat.zero_le bh)
    (by omega) hrowsIn hcolsIn fun i j hbox e => by
      have hcol : x.cols / 4 * 4 ≤ j := by
        have hlow := hbox.2.2.1
        have hhigh := hbox.2.2.2
        omega
      rw [wordLoads, hx]
      omega
  have hmask : bw &&& (2 ^ 64 - 1 - 3) = bw / 4 * 4 := and_high_bits (k := 2) (by decide) hlt'
  rw [transposeBlock, if_neg (by omega), if_pos hx, hmask]
  rw [hx] at hrest ⊢
  simp only [Nat.add_zero] at hrest
  exact hrest.congr fun i j => or_box_cols (by omega) (by omega)

theorem transposeBlock_done (hx : x.size = 1 ∨ x.size = 4) (hb : Block x r bh c bw)
    (hdone : Done x m₀ (vectorLoads x) S s) :
    Done x m₀ (vectorLoads x) (fun i j => S i j ∨ box r (r + bh) c (c + bw) i j)
      (transposeBlock x.size (x.inp r c 0) (x.out r c 0) (x.cols * x.size) (x.rows * x.size) x.cols
        x.rows bh bw s) := by
  rcases hx with hx | hx
  · have hloads : vectorLoads x = byteLoads x := by
      funext i j n
      simp [vectorLoads, hx]
    rw [hloads] at hdone ⊢
    exact byteBlock_done hx hb hdone
  · have hloads : vectorLoads x = wordLoads x := by
      funext i j n
      simp [vectorLoads, hx]
    rw [hloads] at hdone ⊢
    exact wordBlock_done hx hb hdone

/-! ### Tiles -/

/-- A loop in steps of `b` keeps what holds up to the place that it has reached. -/
theorem foldl_steps {α : Type*} {f : α → ℕ → α} (I : ℕ → α → Prop) {n b : ℕ} (hb : 0 < b) {a : α}
    (hstart : I 0 a)
    (hstep : ∀ k a, k < n → b ∣ k → I k a → I (k + min b (n - k)) (f a k)) :
    I n ((steps n b).foldl f a) := by
  have hall : ∀ m ≤ (n + b - 1) / b, I (min (m * b) n) (((List.range m).map (· * b)).foldl f a) := by
    intro m hm
    induction m with
    | zero => simpa using hstart
    | succ m ih =>
      have hmul : (m + 1) * b ≤ n + b - 1 := (Nat.le_div_iff_mul_le hb).mp hm
      rw [Nat.succ_mul] at hmul
      have hlt : m * b < n := by omega
      have hbefore := ih (by omega)
      rw [Nat.min_eq_left hlt.le] at hbefore
      have hafter := hstep (m * b) _ hlt (Nat.dvd_mul_left ..) hbefore
      rw [List.range_succ, List.map_append, List.foldl_append, Nat.succ_mul,
        show min (m * b + b) n = m * b + min b (n - m * b) by omega]
      exact hafter
  have hend := hall _ le_rfl
  rw [Nat.min_eq_right (show n ≤ (n + b - 1) / b * b from le_alignUp n hb)] at hend
  exact hend

theorem macroBlock_dvd (size : ℕ) : 16 ∣ macroBlock size ∧ 0 < macroBlock size := by
  unfold macroBlock
  split <;> decide

theorem stride_eq (hrows : 0 < x.rows) (hcols : 0 < x.cols) :
    x.cols * x.size % 2 ^ 64 = x.cols * x.size ∧ x.rows * x.size % 2 ^ 64 = x.rows * x.size := by
  have hin : 1 * x.cols * x.size ≤ x.rows * x.cols * x.size :=
    Nat.mul_le_mul_right _ (Nat.mul_le_mul_right _ hrows)
  have hout : x.rows * 1 * x.size ≤ x.rows * x.cols * x.size :=
    Nat.mul_le_mul_right _ (Nat.mul_le_mul_left _ hcols)
  rw [Nat.one_mul] at hin
  rw [Nat.mul_one] at hout
  have htotal := x.total
  exact ⟨Nat.mod_eq_of_lt (by omega), Nat.mod_eq_of_lt (by omega)⟩

/-- `xnnpack_transpose_macro`. -/
theorem xnnpackTransposeMacro_done (hx : x.size = 1 ∨ x.size = 4) (hrows : 0 < x.rows)
    (hcols : 0 < x.cols) (hdone : Done x m₀ (vectorLoads x) (fun _ _ => False) s) :
    Done x m₀ (vectorLoads x) (box 0 x.rows 0 x.cols)
      (xnnpackTransposeMacro x.size x.input x.output x.rows x.cols s) := by
  have hsize : 0 < x.size := by omega
  obtain ⟨hin, hout⟩ := stride_eq hrows hcols
  obtain ⟨hdvd, hpos⟩ := macroBlock_dvd x.size
  have hinp : ∀ r c : ℕ, x.input + ((r * x.cols + c) * x.size : ℕ) = x.inp r c 0 := fun _ _ => rfl
  have hout' : ∀ r c : ℕ, x.output + ((c * x.rows + r) * x.size : ℕ) = x.out r c 0 := fun _ _ => rfl
  simp only [xnnpackTransposeMacro, hin, hout, Nat.mul_div_cancel _ hsize, hinp, hout']
  refine foldl_steps (fun r s => Done x m₀ (vectorLoads x) (box 0 r 0 x.cols) s) hpos
    (hdone.congr fun i j => by simp [box]) fun r s hr hr16 hrun => ?_
  have hrow := foldl_steps (fun c s => Done x m₀ (vectorLoads x)
    (fun i j => box 0 r 0 x.cols i j ∨ box r (r + min (macroBlock x.size) (x.rows - r)) 0 c i j) s)
    (f := fun s c => transposeBlock x.size (x.inp r c 0) (x.out r c 0) (x.cols * x.size)
      (x.rows * x.size) x.cols x.rows (min (macroBlock x.size) (x.rows - r))
      (min (macroBlock x.size) (x.cols - c)) s) (n := x.cols) hpos
    (hrun.congr fun i j => (or_box_empty (Or.inr le_rfl)).symm) fun c s hc hc16 hrun' => by
      have hblock : Block x r (min (macroBlock x.size) (x.rows - r)) c
          (min (macroBlock x.size) (x.cols - c)) := by
        have hr' := Nat.mod_eq_zero_of_dvd (hdvd.trans hr16)
        have hc' := Nat.mod_eq_zero_of_dvd (hdvd.trans hc16)
        constructor <;> omega
      exact (transposeBlock_done hx hblock hrun').congr fun i j =>
        or_box_cols (Nat.zero_le _) (Nat.le_add_right _ _)
  refine hrow.congr fun i j => ?_
  simp only [box]
  omega

/-! ### The whole transposition -/

/-- The loads for an element: it alone in a vector, else those of the kernels. -/
def loadsAt (x : Matrices) (i j n : ℕ) : Prop :=
  if x.rows ≤ 1 ∨ x.cols ≤ 1 then n = x.size else vectorLoads x i j n

/-- A vector is copied. -/
theorem copyVector_done (hvec : x.rows = 1 ∨ x.cols = 1)
    (hdone : Done x m₀ (loadsAt x) (fun _ _ => False) s) :
    Done x m₀ (loadsAt x) (box 0 x.rows 0 x.cols)
      ((List.range (x.rows * x.cols)).foldl (fun s i => copyElement x.size
        (x.output + (i * x.size : ℕ)) (x.input + (i * x.size : ℕ)) s) s) := by
  have hloads : ∀ i j n, loadsAt x i j n ↔ n = x.size := by
    intro i j n
    rw [loadsAt, if_pos (by omega)]
  rcases hvec with hone | hone
  · have hall : ∀ n ≤ x.cols, Done x m₀ (loadsAt x) (fun i j => False ∨ box 0 1 0 n i j)
        ((List.range n).foldl (fun s i => copyElement x.size
          (x.output + (i * x.size : ℕ)) (x.input + (i * x.size : ℕ)) s) s) := by
      intro n hn
      induction n with
      | zero => exact hdone.congr fun i j => (or_box_empty (Or.inr le_rfl)).symm
      | succ n ih =>
        have hcopy := copyElement_done (ih (by omega)) (i := 0) (j := n) (by omega) (by omega)
          (hloads 0 n)
        have hdst : x.out 0 n 0 = x.output + (n * x.size : ℕ) := by simp [out, hone]
        have hsrc : x.inp 0 n 0 = x.input + (n * x.size : ℕ) := by simp [inp]
        rw [hdst, hsrc] at hcopy
        rw [List.range_succ, List.foldl_append]
        exact hcopy.congr fun i j => or_box_cols (by omega) (by omega)
    rw [hone, Nat.one_mul]
    exact (hall x.cols le_rfl).congr fun i j => Iff.of_eq (false_or _)
  · have hall : ∀ n ≤ x.rows, Done x m₀ (loadsAt x) (fun i j => False ∨ box 0 n 0 1 i j)
        ((List.range n).foldl (fun s i => copyElement x.size
          (x.output + (i * x.size : ℕ)) (x.input + (i * x.size : ℕ)) s) s) := by
      intro n hn
      induction n with
      | zero => exact hdone.congr fun i j => (or_box_empty (Or.inl le_rfl)).symm
      | succ n ih =>
        have hcopy := copyElement_done (ih (by omega)) (i := n) (j := 0) (by omega) (by omega)
          (hloads n 0)
        have hdst : x.out n 0 0 = x.output + (n * x.size : ℕ) := by simp [out]
        have hsrc : x.inp n 0 0 = x.input + (n * x.size : ℕ) := by simp [inp, hone]
        rw [hdst, hsrc] at hcopy
        rw [List.range_succ, List.foldl_append]
        exact hcopy.congr fun i j => or_box_rows (by omega) (by omega)
    rw [hone, Nat.mul_one]
    exact (hall x.rows le_rfl).congr fun i j => Iff.of_eq (false_or _)

/-- The run fills the whole output, by these loads. -/
theorem xnnpackTranspose_done (hx : x.size = 1 ∨ x.size = 4) (m₀ : Memory UInt8) :
    Done x m₀ (loadsAt x) (box 0 x.rows 0 x.cols)
      (xnnpackTranspose x.size x.input x.output x.rows x.cols ⟨m₀, []⟩) := by
  have hinit := Done.init x m₀ (loadsAt x)
  unfold xnnpackTranspose
  split
  · next hempty =>
    refine hinit.congr fun i j => ?_
    simp only [box, false_iff]
    omega
  next hempty =>
  split
  · next hone =>
    have hcopy := copyElement_done hinit (i := 0) (j := 0) (by omega) (by omega) fun n => by
      rw [loadsAt, if_pos (by omega)]
    have hdst : x.out 0 0 0 = x.output := by simp [out]
    have hsrc : x.inp 0 0 0 = x.input := by simp [inp]
    rw [hdst, hsrc] at hcopy
    rw [hone.1, hone.2]
    exact hcopy.congr fun i j => Iff.of_eq (false_or _)
  next hone =>
  split
  · next hvec =>
    have hcount : x.rows * x.cols < 2 ^ 64 := by
      have hle : x.rows * x.cols * 1 ≤ x.rows * x.cols * x.size := Nat.mul_le_mul_left _ (by omega)
      have htotal := x.total
      omega
    rw [Nat.mod_eq_of_lt hcount]
    exact copyVector_done hvec hinit
  next hvec =>
  have hloads : loadsAt x = vectorLoads x := by
    funext i j n
    rw [loadsAt, if_neg (by omega)]
  rw [hloads] at hinit ⊢
  split
  · exact xnnpackTransposeMacro_done hx (by omega) (by omega) hinit
  · obtain ⟨hin, hout⟩ := stride_eq (x := x) (by omega) (by omega)
    have hblock : Block x 0 x.rows 0 x.cols := by constructor <;> omega
    have hdone := transposeBlock_done hx hblock hinit
    have hdst : x.out 0 0 0 = x.output := by simp [out]
    have hsrc : x.inp 0 0 0 = x.input := by simp [inp]
    rw [hdst, hsrc] at hdone
    rw [hin, hout]
    simp only [Nat.zero_add] at hdone
    exact hdone.congr fun i j => Iff.of_eq (false_or _)

/-! ### Reads -/

/-- Every byte of a load is in the input. -/
def Inside (x : Matrices) (load : Address × ℕ) : Prop :=
  ∀ k < load.2, ∃ p < x.rows * x.cols * x.size, load.1 + k = x.input + p

theorem inp_add_lane (x : Matrices) (i j k : ℕ) :
    x.inp i j 0 + k = x.input + ((i * x.cols + j) * x.size + k : ℕ) := by
  simp only [inp, add_add_offset, Nat.add_zero]

theorem inside_of_le {n : ℕ} (hle : (i * x.cols + j) * x.size + n ≤ x.rows * x.cols * x.size) :
    Inside x (x.inp i j 0, n) := by
  intro k hk
  have hk' : k < n := hk
  exact ⟨_, by omega, inp_add_lane x i j k⟩

theorem not_inside {n : ℕ} (hn : 0 < n) (hlt : (i * x.cols + j) * x.size + n ≤ 2 ^ 64)
    (hover : x.rows * x.cols * x.size < (i * x.cols + j) * x.size + n) :
    ¬ Inside x (x.inp i j 0, n) := by
  intro hin
  obtain ⟨p, hp, heq⟩ := hin (n - 1) (show n - 1 < n by omega)
  rw [inp_add_lane, add_offset_inj (by omega) (hp.trans x.total)] at heq
  omega

/-- What the transposition is to do: the output is the transposed input, nothing else is written,
    and no byte outside of the input is read. -/
structure Transposed (x : Matrices) (m₀ : Memory UInt8) (s : Machine) : Prop where
  written : ∀ i < x.rows, ∀ j < x.cols, ∀ b < x.size, s.memory (x.out i j b) = m₀ (x.inp i j b)
  kept : ∀ a, (∀ p < x.rows * x.cols * x.size, a ≠ x.output + (p : ℕ)) → s.memory a = m₀ a
  inside : ∀ load ∈ s.loads, Inside x load

/-- The last row of full blocks of 16 bytes ends before the input does. -/
def RowsEndInside (x : Matrices) : Prop :=
  x.size = 4 ∨ x.rows < 16 ∨ x.cols ≤ 1 ∨ alignUp x.cols 16 ≤ (x.rows % 16 + 1) * x.cols

theorem element_inside (hi : i < x.rows) (hj : j < x.cols) :
    (i * x.cols + j) * x.size + x.size ≤ x.rows * x.cols * x.size := by
  have hplace : i * x.cols + j + 1 ≤ x.rows * x.cols := place_lt hi hj
  calc (i * x.cols + j) * x.size + x.size = (i * x.cols + j + 1) * x.size := by ring
    _ ≤ x.rows * x.cols * x.size := Nat.mul_le_mul_right _ hplace

theorem loadsAt_inside (hx : x.size = 1 ∨ x.size = 4) (hrows : RowsEndInside x) (hi : i < x.rows)
    (hj : j < x.cols) {n : ℕ} (hn : loadsAt x i j n) : Inside x (x.inp i j 0, n) := by
  have helement := element_inside hi hj
  have hnext : (i + 1) * x.cols ≤ x.rows * x.cols := Nat.mul_le_mul_right _ hi
  rw [Nat.succ_mul] at hnext
  refine inside_of_le ?_
  rw [loadsAt] at hn
  split at hn
  · rwa [hn]
  next hmatrix =>
  rcases hx with hx | hx
  · rw [vectorLoads, if_pos hx] at hn
    rcases hn with ⟨hfull, hj16, rfl⟩ | ⟨-, rfl⟩
    · have halign : alignUp x.cols 16 ≤ (x.rows % 16 + 1) * x.cols := by
        rcases hrows with h4 | hless | hcol | halign
        · omega
        · omega
        · omega
        · exact halign
      have hj' : j + 16 ≤ alignUp x.cols 16 := by
        rw [alignUp]
        omega
      have hlast : (i + (x.rows % 16 + 1)) * x.cols ≤ x.rows * x.cols :=
        Nat.mul_le_mul_right _ (by omega)
      rw [Nat.add_mul] at hlast
      rw [hx, Nat.mul_one, Nat.mul_one]
      omega
    · rwa [hx] at helement ⊢
  · rw [vectorLoads, if_neg (by omega)] at hn
    rcases hn with ⟨hfull, hj4, rfl⟩ | ⟨-, rfl⟩
    · rw [hx]
      omega
    · rwa [hx] at helement ⊢

/-- The last 16 bytes of the last full row, otherwise. -/
theorem exists_load_outside (hx : x.size = 1 ∨ x.size = 4) (hrows : ¬ RowsEndInside x) :
    ∃ i j n, box 0 x.rows 0 x.cols i j ∧ loadsAt x i j n ∧ ¬ Inside x (x.inp i j 0, n) := by
  simp only [RowsEndInside, not_or, Nat.not_le, Nat.not_lt] at hrows
  obtain ⟨hsize, hfull, hcols, hover⟩ := hrows
  have hx1 : x.size = 1 := by omega
  have hbyte : byteLoads x (x.rows / 16 * 16 - 1) ((x.cols - 1) / 16 * 16) 16 :=
    Or.inl ⟨by omega, by omega, rfl⟩
  refine ⟨x.rows / 16 * 16 - 1, (x.cols - 1) / 16 * 16, 16,
    ⟨Nat.zero_le _, by omega, Nat.zero_le _, by omega⟩, ?_, not_inside (by decide) ?_ ?_⟩
  · rwa [loadsAt, if_neg (by omega), vectorLoads, if_pos hx1]
  · -- The rows of full blocks have a multiple of 16 bytes.
    have hle : x.rows / 16 * 16 * x.cols ≤ x.rows * x.cols * x.size := by
      rw [hx1, Nat.mul_one]
      exact Nat.mul_le_mul_right _ (Nat.div_mul_le_self _ _)
    have hmul : x.rows / 16 * 16 * x.cols = 16 * (x.rows / 16 * x.cols) := by ring
    have hpred : (x.rows / 16 * 16 - 1) * x.cols + x.cols = x.rows / 16 * 16 * x.cols := by
      rw [← Nat.succ_mul]
      congr 1
      omega
    have htotal := x.total
    rw [hx1, Nat.mul_one]
    rw [hx1, Nat.mul_one] at hle htotal
    omega
  · have hsum : x.rows / 16 * 16 - 1 + (x.rows % 16 + 1) = x.rows := by omega
    have hsplit : (x.rows / 16 * 16 - 1) * x.cols + (x.rows % 16 + 1) * x.cols = x.rows * x.cols := by
      rw [← Nat.add_mul, hsum]
    rw [alignUp] at hover
    rw [hx1, Nat.mul_one, Nat.mul_one]
    omega

/-- The output is always right, and it is all that is written; reads stay in the input iff the last
    row of full blocks ends there. -/
theorem xnnpackTranspose_transposed_iff (x : Matrices) (hx : x.size = 1 ∨ x.size = 4)
    (m₀ : Memory UInt8) :
    Transposed x m₀ (xnnpackTranspose x.size x.input x.output x.rows x.cols ⟨m₀, []⟩) ↔
      RowsEndInside x := by
  have hdone := xnnpackTranspose_done hx m₀
  constructor
  · intro hall
    by_contra hrows
    obtain ⟨i, j, n, hbox, hn, hout⟩ := exists_load_outside hx hrows
    exact hout (hall.inside _ ((hdone.loads _).mpr ⟨i, j, n, hbox, hn, rfl⟩))
  · intro hrows
    refine ⟨fun i hi j hj b hb => ?_, fun a ha => ?_, fun load hload => ?_⟩
    · exact hdone.fills.written i j b ⟨Nat.zero_le _, hi, Nat.zero_le _, hj⟩ hb
    · refine hdone.fills.kept a fun i j b hbox hb => ?_
      exact ha _ (out_lt hbox.2.1 hbox.2.2.2 hb)
    · obtain ⟨i, j, n, hbox, hn, rfl⟩ := (hdone.loads _).mp hload
      exact loadsAt_inside hx hrows hbox.2.1 hbox.2.2.2 hn

/-- 17 rows of 9 bytes: the last load ends in the row behind the full blocks. -/
def seventeenRows : Matrices where
  size := 1
  rows := 17
  cols := 9
  input := 0x1000
  output := 0x2000
  total := by decide
  apart := by decide +kernel

theorem xnnpackTranspose_transposed_iff_seventeen_rows :
    Transposed seventeenRows (fun _ => 0)
      (xnnpackTranspose 1 0x1000 0x2000 17 9 ⟨fun _ => 0, []⟩) :=
  (xnnpackTranspose_transposed_iff seventeenRows (Or.inl rfl) fun _ => 0).mpr (Or.inr (by decide))

/-- 16 rows of two bytes. -/
def sixteenRows : Matrices where
  size := 1
  rows := 16
  cols := 2
  input := 0x1000
  output := 0x2000
  total := by decide
  apart := by decide +kernel

/-- The last row starts at byte 30 of 32, and 16 bytes are loaded from there. -/
theorem sixteen_rows_read_outside :
    (0x1000 + 30, 16) ∈ (xnnpackTranspose 1 0x1000 0x2000 16 2 ⟨fun _ => 0, []⟩).loads ∧
    ¬ Inside sixteenRows (0x1000 + 30, 16) ∧
    ¬ Transposed sixteenRows (fun _ => 0) (xnnpackTranspose 1 0x1000 0x2000 16 2 ⟨fun _ => 0, []⟩) := by
  have hdone := xnnpackTranspose_done (x := sixteenRows) (Or.inl rfl) fun _ => 0
  have hload : loadsAt sixteenRows 15 0 16 := by
    simp [loadsAt, vectorLoads, byteLoads, sixteenRows]
  have hmem := (hdone.loads (0x1000 + 30, 16)).mpr
    ⟨15, 0, 16, ⟨by decide, by decide, by decide, by decide⟩, hload, rfl⟩
  have hout : ¬ Inside sixteenRows (0x1000 + 30, 16) :=
    not_inside (x := sixteenRows) (i := 15) (j := 0) (by decide) (by decide) (by decide)
  exact ⟨hmem, hout, fun hall => hout (hall.inside _ hmem)⟩

end Matrices
end DxRt.XnnKernel
