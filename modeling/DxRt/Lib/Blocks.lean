import Mathlib

/-! Arrays that are stored in blocks: padded rows, groups of columns, transposed matrices.

    An array is a function on the places; a change of the storage order is a function that says, for
    each place of the result, where its element comes from. -/

namespace Blocks
variable {β : Type*} {row col wide unit size i j g b : ℕ}

theorem add_mul_div_of_lt (h : j < wide) : (i * wide + j) / wide = i := by
  have hpos : 0 < wide := Nat.zero_lt_of_lt h
  rw [Nat.add_comm, Nat.add_mul_div_right _ _ hpos, Nat.div_eq_of_lt h, Nat.zero_add]

theorem add_mul_mod_of_lt (h : j < wide) : (i * wide + j) % wide = j := by
  rw [Nat.add_comm, Nat.add_mul_mod_self_right, Nat.mod_eq_of_lt h]

/-- Place `j` of row `i` is inside. -/
theorem place_lt (hi : i < row) (hj : j < wide) : i * wide + j < row * wide := by
  have hrow : (i + 1) * wide ≤ row * wide := Nat.mul_le_mul_right _ hi
  rw [Nat.add_mul, Nat.one_mul] at hrow
  omega

/-! ### The next multiple of a unit -/

def alignUp (col unit : ℕ) : ℕ := (col + unit - 1) / unit * unit

theorem le_alignUp (col : ℕ) (h : 0 < unit) : col ≤ alignUp col unit := by
  have hmod := Nat.div_add_mod' (col + unit - 1) unit
  have hlt := Nat.mod_lt (col + unit - 1) h
  rw [alignUp]
  omega

theorem alignUp_lt (col : ℕ) (h : 0 < unit) : alignUp col unit < col + unit := by
  have hle := Nat.div_mul_le_self (col + unit - 1) unit
  rw [alignUp]
  omega

theorem alignUp_eq_iff (h : 0 < unit) : alignUp col unit = col ↔ unit ∣ col := by
  constructor
  · intro heq
    rw [← heq]
    exact Nat.dvd_mul_left ..
  · rintro ⟨k, rfl⟩
    rw [alignUp, Nat.add_sub_assoc h, Nat.mul_add_div h, Nat.div_eq_of_lt (by omega), Nat.add_zero,
      Nat.mul_comm]

/-! ### Padded rows -/

/-- Rows of `col` elements, each followed by zeros up to `wide`. -/
def pad [Zero β] (col wide : ℕ) (x : ℕ → β) : ℕ → β :=
  fun p => if p % wide < col then x (p / wide * col + p % wide) else 0

/-- The first `col` elements of rows of `wide` elements. -/
def unpad (col wide : ℕ) (y : ℕ → β) : ℕ → β := fun q => y (q / col * wide + q % col)

theorem pad_at [Zero β] (x : ℕ → β) (hj : j < wide) :
    pad col wide x (i * wide + j) = if j < col then x (i * col + j) else 0 := by
  rw [pad, add_mul_div_of_lt hj, add_mul_mod_of_lt hj]

theorem unpad_at (y : ℕ → β) (hj : j < col) : unpad col wide y (i * col + j) = y (i * wide + j) := by
  rw [unpad, add_mul_div_of_lt hj, add_mul_mod_of_lt hj]

theorem unpad_pad [Zero β] (x : ℕ → β) (hcol : 0 < col) (hle : col ≤ wide) :
    unpad col wide (pad col wide x) = x := by
  funext q
  have hq := Nat.mod_lt q hcol
  rw [unpad, pad_at x (hq.trans_le hle), if_pos hq, Nat.div_add_mod']

theorem pad_self [Zero β] (x : ℕ → β) (h : 0 < col) : pad col col x = x := by
  funext p
  rw [pad, if_pos (Nat.mod_lt p h), Nat.div_add_mod']

theorem unpad_self (x : ℕ → β) : unpad col col x = x := by
  funext q
  rw [unpad, Nat.div_add_mod']

/-! ### Groups of columns -/

/-- All rows of the first `unit` columns, then all rows of the next ones; the last group is padded
    with zeros. -/
def group [Zero β] (row col unit : ℕ) (x : ℕ → β) : ℕ → β := fun p =>
  let g := p / (row * unit)
  let i := p % (row * unit) / unit
  let j := p % unit
  if g * unit + j < col then x (i * col + (g * unit + j)) else 0

theorem group_at [Zero β] (x : ℕ → β) (hi : i < row) (hj : j < unit) :
    group row col unit x (g * (row * unit) + (i * unit + j)) =
      if g * unit + j < col then x (i * col + (g * unit + j)) else 0 := by
  have hplace : i * unit + j < row * unit := place_lt hi hj
  have hmod : (g * (row * unit) + (i * unit + j)) % unit = j := by
    rw [← Nat.mul_assoc, ← Nat.add_assoc, ← Nat.add_mul, add_mul_mod_of_lt hj]
  simp only [group, add_mul_div_of_lt hplace, add_mul_mod_of_lt hplace, add_mul_div_of_lt hj, hmod]

/-- A single group leaves the rows as they are. -/
theorem group_self [Zero β] (x : ℕ → β) {p : ℕ} (hp : p < row * col) : group row col col x p = x p := by
  have hcol : 0 < col := Nat.pos_of_mul_pos_left (Nat.zero_lt_of_lt hp)
  have hi : p / col < row := Nat.div_lt_of_lt_mul (by rwa [Nat.mul_comm])
  have hj := Nat.mod_lt p hcol
  have hplace : p = 0 * (row * col) + (p / col * col + p % col) := by
    rw [Nat.zero_mul, Nat.zero_add, Nat.div_add_mod']
  rw [hplace, group_at x hi hj, if_pos (by omega)]
  simp only [Nat.zero_mul, Nat.zero_add]

/-- A single row is its groups one after the other. -/
theorem group_row [Zero β] (x : ℕ → β) {p : ℕ} (hunit : 0 < unit) (hp : p < col) :
    group 1 col unit x p = x p := by
  have hplace : p = p / unit * (1 * unit) + (0 * unit + p % unit) := by
    rw [Nat.one_mul, Nat.zero_mul, Nat.zero_add, Nat.div_add_mod']
  rw [hplace, group_at x Nat.one_pos (Nat.mod_lt p hunit), if_pos (by rwa [Nat.div_add_mod'])]
  simp only [Nat.one_mul, Nat.zero_mul, Nat.zero_add]

/-- The group, the row and the column of a place. -/
theorem exists_place {groups p : ℕ} (hp : p < groups * (row * unit)) :
    ∃ g < groups, ∃ i < row, ∃ j < unit, p = g * (row * unit) + (i * unit + j) := by
  have hpos : 0 < row * unit := Nat.pos_of_mul_pos_left (Nat.zero_lt_of_lt hp)
  have hunit : 0 < unit := Nat.pos_of_mul_pos_left hpos
  have hrest := Nat.mod_lt p hpos
  refine ⟨p / (row * unit), Nat.div_lt_of_lt_mul (by rwa [Nat.mul_comm]),
    p % (row * unit) / unit, Nat.div_lt_of_lt_mul (Nat.mul_comm unit row ▸ hrest),
    p % (row * unit) % unit, Nat.mod_lt _ hunit, ?_⟩
  rw [Nat.div_add_mod', Nat.div_add_mod']

/-! ### Transposed matrices -/

/-- The columns of a matrix of `row` rows, one after the other; an element has `size` places. -/
def transpose (row col size : ℕ) (x : ℕ → β) : ℕ → β := fun p =>
  let k := p / size
  x ((k % row * col + k / row) * size + p % size)

theorem transpose_at (x : ℕ → β) (hi : i < row) (hb : b < size) :
    transpose row col size x ((j * row + i) * size + b) = x ((i * col + j) * size + b) := by
  simp only [transpose, add_mul_div_of_lt hb, add_mul_mod_of_lt hb, add_mul_div_of_lt hi,
    add_mul_mod_of_lt hi]

/-- The number of the element that comes to place `k`. -/
def transposed (row col k : ℕ) : ℕ := k % row * col + k / row

theorem transpose_eq (x : ℕ → β) (p : ℕ) :
    transpose row col size x p = x (transposed row col (p / size) * size + p % size) := rfl

theorem transposed_lt {k : ℕ} (hk : k < row * col) : transposed row col k < row * col := by
  have hrow : 0 < row := Nat.pos_of_mul_pos_right (Nat.zero_lt_of_lt hk)
  exact place_lt (Nat.mod_lt k hrow) (Nat.div_lt_of_lt_mul hk)

/-- An element comes from inside. -/
theorem transpose_place_lt {p : ℕ} (hp : p < row * col * size) :
    transposed row col (p / size) * size + p % size < row * col * size := by
  have hsize : 0 < size := Nat.pos_of_mul_pos_left (Nat.zero_lt_of_lt hp)
  have hk : p / size < row * col := Nat.div_lt_of_lt_mul (by rwa [Nat.mul_comm])
  exact place_lt (transposed_lt hk) (Nat.mod_lt p hsize)

theorem transpose_congr {x y : ℕ → β} {p : ℕ} (h : ∀ q < row * col * size, x q = y q)
    (hp : p < row * col * size) : transpose row col size x p = transpose row col size y p :=
  h _ (transpose_place_lt hp)

/-- Rows and columns exchanged twice. -/
theorem transpose_transpose (x : ℕ → β) {p : ℕ} (hp : p < row * col * size) :
    transpose col row size (transpose row col size x) p = x p := by
  obtain ⟨i, hi, j, hj, b, hb, rfl⟩ :=
    exists_place (show p < row * (col * size) by rwa [← Nat.mul_assoc])
  have hplace : i * (col * size) + (j * size + b) = (i * col + j) * size + b := by ring
  rw [hplace, transpose_at _ hj hb, transpose_at x hi hb]

/-- A single row is a single column. -/
theorem transpose_row (x : ℕ → β) (p : ℕ) : transpose 1 col size x p = x p := by
  rw [transpose_eq, transposed, Nat.mod_one, Nat.zero_mul, Nat.zero_add, Nat.div_one,
    Nat.div_add_mod']

theorem transpose_col (x : ℕ → β) {p : ℕ} (hp : p < row * size) :
    transpose row 1 size x p = x p := by
  have hk : p / size < row := Nat.div_lt_of_lt_mul (by rwa [Nat.mul_comm])
  rw [transpose_eq, transposed, Nat.mod_eq_of_lt hk, Nat.div_eq_of_lt hk, Nat.mul_one, Nat.add_zero,
    Nat.div_add_mod']

/-- Groups of whole units are a transposition of units. -/
theorem group_eq_transpose [Zero β] (x : ℕ → β) {p : ℕ} (hdvd : unit ∣ col) (hp : p < row * col) :
    group row col unit x p = transpose row (col / unit) unit x p := by
  have hcol : 0 < col := Nat.pos_of_mul_pos_left (Nat.zero_lt_of_lt hp)
  have hmul : col / unit * unit = col := Nat.div_mul_cancel hdvd
  obtain ⟨g, hg, i, hi, j, hj, rfl⟩ :
      ∃ g < col / unit, ∃ i < row, ∃ j < unit, p = g * (row * unit) + (i * unit + j) := by
    refine exists_place ?_
    rw [Nat.mul_left_comm, hmul]
    exact hp
  have hinside : g * unit + j < col := by
    rw [← hmul]
    exact place_lt hg hj
  have hplace : g * (row * unit) + (i * unit + j) = (g * row + i) * unit + j := by ring
  have hsource : (i * (col / unit) + g) * unit + j = i * (col / unit * unit) + (g * unit + j) := by ring
  rw [group_at x hi hj, if_pos hinside, hplace, transpose_at x hi hj, hsource, hmul]

theorem group_congr [Zero β] {x y : ℕ → β} {p : ℕ} (h : ∀ q < row * col, x q = y q)
    (hrow : 0 < row) (hunit : 0 < unit) : group row col unit x p = group row col unit y p := by
  simp only [group]
  split_ifs with hinside
  · refine h _ (place_lt ?_ hinside)
    exact Nat.div_lt_of_lt_mul (by
      rw [Nat.mul_comm unit]
      exact Nat.mod_lt p (Nat.mul_pos hrow hunit))
  · rfl

/-! ### Two transpositions of one array -/

/-- A transposition multiplies the numbers of the elements, up to the number of all but one. -/
theorem transposed_modEq {n k : ℕ} (hn : row * col = n + 1) : transposed row col k ≡ k * col [MOD n] := by
  have hsplit : k * col = transposed row col k + n * (k / row) := by
    have hdiv := Nat.div_add_mod' k row
    calc k * col = (k / row * row + k % row) * col := by rw [hdiv]
      _ = k / row * (row * col) + k % row * col := by ring
      _ = transposed row col k + n * (k / row) := by
        rw [hn, transposed]
        ring
  rw [hsplit]
  exact (Nat.add_mul_mod_self_left _ _ _).symm

/-- The last element stays the last one. -/
theorem transposed_last {n : ℕ} (hn : row * col = n + 1) : transposed row col n = n := by
  have hpos : 0 < row * col := by omega
  obtain ⟨r, rfl⟩ : ∃ r, row = r + 1 := Nat.exists_eq_add_one.mpr (Nat.pos_of_mul_pos_right hpos)
  obtain ⟨c, rfl⟩ : ∃ c, col = c + 1 := Nat.exists_eq_add_one.mpr (Nat.pos_of_mul_pos_left hpos)
  have hlast : n = c * (r + 1) + r := by
    have hring : (r + 1) * (c + 1) = c * (r + 1) + r + 1 := by ring
    omega
  rw [transposed, hlast, add_mul_mod_of_lt (Nat.lt_succ_self r), add_mul_div_of_lt (Nat.lt_succ_self r)]
  ring

theorem transposed_lt_last {n k : ℕ} (hn : row * col = n + 1) (hk : k < n) :
    transposed row col k < n := by
  have hlt := transposed_lt (by omega : k < row * col)
  refine lt_of_le_of_ne (by omega) fun heq => ?_
  have hpos : 0 < row * col := by omega
  obtain ⟨r, rfl⟩ : ∃ r, row = r + 1 := Nat.exists_eq_add_one.mpr (Nat.pos_of_mul_pos_right hpos)
  obtain ⟨c, rfl⟩ : ∃ c, col = c + 1 := Nat.exists_eq_add_one.mpr (Nat.pos_of_mul_pos_left hpos)
  have hring : (r + 1) * (c + 1) = r * (c + 1) + c + 1 := by ring
  have hk' : k < (r + 1) * (c + 1) := by omega
  have hrow : k % (r + 1) ≤ r := Nat.lt_succ_iff.mp (Nat.mod_lt k r.succ_pos)
  have hcol : k / (r + 1) ≤ c := Nat.lt_succ_iff.mp (Nat.div_lt_of_lt_mul hk')
  have hle : k % (r + 1) * (c + 1) ≤ r * (c + 1) := Nat.mul_le_mul_right _ hrow
  rw [transposed] at heq
  have hdiv : k / (r + 1) = c := by omega
  have hmod : k % (r + 1) = r := by
    refine Nat.eq_of_mul_eq_mul_right (by omega : 0 < c + 1) ?_
    omega
  have hback := Nat.div_add_mod' k (r + 1)
  rw [hdiv, hmod] at hback
  have hring' : (r + 1) * (c + 1) = c * (r + 1) + r + 1 := by ring
  omega

/-- Transpositions of the same elements commute. -/
theorem transposed_comm {row' col' k : ℕ} (h : row * col = row' * col') (hk : k < row * col) :
    transposed row col (transposed row' col' k) = transposed row' col' (transposed row col k) := by
  obtain ⟨n, hn⟩ : ∃ n, row * col = n + 1 := Nat.exists_eq_add_one.mpr (Nat.zero_lt_of_lt hk)
  have hn' : row' * col' = n + 1 := h ▸ hn
  rcases Nat.eq_or_lt_of_le (by omega : k ≤ n) with rfl | hlt
  · rw [transposed_last hn, transposed_last hn', transposed_last hn]
  · have hmod : transposed row col (transposed row' col' k) ≡
        transposed row' col' (transposed row col k) [MOD n] :=
      calc transposed row col (transposed row' col' k)
          ≡ transposed row' col' k * col [MOD n] := transposed_modEq hn
        _ ≡ k * col' * col [MOD n] := (transposed_modEq hn').mul_right col
        _ = k * col * col' := by ring
        _ ≡ transposed row col k * col' [MOD n] := ((transposed_modEq hn).mul_right col').symm
        _ ≡ transposed row' col' (transposed row col k) [MOD n] := (transposed_modEq hn').symm
    exact hmod.eq_of_lt_of_lt (transposed_lt_last hn (transposed_lt_last hn' hlt))
      (transposed_lt_last hn' (transposed_lt_last hn hlt))

theorem transpose_comm {row' col' p : ℕ} (h : row * col = row' * col') (x : ℕ → β)
    (hp : p < row * col * size) : transpose row col size (transpose row' col' size x) p =
      transpose row' col' size (transpose row col size x) p := by
  have hsize : 0 < size := Nat.pos_of_mul_pos_left (Nat.zero_lt_of_lt hp)
  have hb := Nat.mod_lt p hsize
  have hk : p / size < row * col := Nat.div_lt_of_lt_mul (by rwa [Nat.mul_comm])
  simp only [transpose_eq, add_mul_div_of_lt hb, add_mul_mod_of_lt hb]
  rw [transposed_comm h.symm (h ▸ hk)]

end Blocks
