import DxRt.Format.Writes

/-! lib/npu_format_handler.cpp: `bidirectional_transpose`.

    What the transposition writes, as a program of stores, and that it is the transposed matrix:
    through the other buffer, through a temporary one, or by exchanges above the diagonal. -/

namespace DxRt.NpuFormatHandler
open Blocks Stores

variable {m : ProcessMemory} {src dst : ℕ} {row col : ℤ} {elementSize : ℕ} {alloc : Bool}

/-- The transposition accepts its arguments; it says nothing when it does not. -/
structure TransposeFits (src dst : ℕ) (row col : ℤ) (elementSize : ℕ) (alloc : Bool) : Prop where
  source : src ≠ 0
  destination : dst ≠ 0
  rowPos : 0 < row
  colPos : 0 < col
  sizePos : 0 < elementSize
  total : src = dst → row.toNat * col.toNat * elementSize < 2 ^ 64
  buffer : src = dst → alloc = true

/-- One copy for each element; the matrix is read by `source`. -/
def elementCopies (source : ProcessMemory → ℕ → UInt8) (dst : ℕ) (row col : ℤ) (elementSize : ℕ) :
    List (Store UInt8) :=
  copies (fun m p k => source m (elementOffset col elementSize p.1 p.2 + k))
    (fun p => dst + elementOffset row elementSize p.2 p.1) (fun _ => elementSize) (cells row col)

/-- The two copies of every exchange. -/
def exchanges (src : ℕ) (stride : ℤ) (elementSize : ℕ) :
    List (ℕ × ℕ) → ProcessMemory → List (Store UInt8)
  | [], _ => []
  | p :: rest, m =>
    let ptr1 := src + elementOffset stride elementSize p.1 p.2
    let ptr2 := src + elementOffset stride elementSize p.2 p.1
    ⟨ptr1, elementSize, fun _ k => m (ptr2 + k)⟩ :: ⟨ptr2, elementSize, fun _ k => m (ptr1 + k)⟩ ::
      exchanges src stride elementSize rest (swap m ptr1 ptr2 elementSize)

/-- The pairs above the diagonal. -/
def aboveDiagonal (row col : ℤ) : List (ℕ × ℕ) := (cells row col).filter fun p => p.1 < p.2

def transposeStores (m : ProcessMemory) (src dst : ℕ) (row col : ℤ) (elementSize : ℕ) :
    List (Store UInt8) :=
  if src ≠ dst then elementCopies (fun m k => m (src + k)) dst row col elementSize
  else if row = col then exchanges src col elementSize (aboveDiagonal row col) m
  else [⟨src, row.toNat * col.toNat * elementSize, fun _ => replay
    (elementCopies (fun _ k => m (src + k)) 0 row col elementSize) fun _ => 0⟩]

theorem foldl_swap (src : ℕ) (stride : ℤ) : ∀ (l : List (ℕ × ℕ)) (m : ProcessMemory),
    l.foldl (fun m p => swap m (src + elementOffset stride elementSize p.1 p.2)
      (src + elementOffset stride elementSize p.2 p.1) elementSize) m =
      replay (exchanges src stride elementSize l m) m
  | [], _ => rfl
  | _ :: l, _ => foldl_swap src stride l _

theorem elementCopies_eq (row col : ℤ) (elementSize : ℕ) (source : ProcessMemory → ℕ → UInt8)
    (dst : ℕ) (m : ProcessMemory) :
    (cells row col).foldl (fun m p => m.copyIn (dst + elementOffset row elementSize p.2 p.1)
      elementSize fun k => source m (elementOffset col elementSize p.1 p.2 + k)) m =
      replay (elementCopies source dst row col elementSize) m :=
  foldl_copyIn (fun m (p : ℕ × ℕ) k => source m (elementOffset col elementSize p.1 p.2 + k)) ..

theorem mem_cells {p : ℕ × ℕ} : p ∈ cells row col ↔ p.1 < row.toNat ∧ p.2 < col.toNat := by
  rw [cells, List.mem_product, List.mem_range, List.mem_range]

/-- The offset of an element, when the matrix is smaller than the address space. -/
theorem elementOffset_eq {stride : ℤ} {i j : ℕ} (h : (i * stride.toNat + j) * elementSize < 2 ^ 64) :
    elementOffset stride elementSize i j = (i * stride.toNat + j) * elementSize := Nat.mod_eq_of_lt h

/-- An element ends inside the matrix. -/
theorem element_le {r c e i j : ℕ} (hi : i < r) (hj : j < c) :
    (i * c + j) * e + e ≤ r * c * e := by
  have hplace : (i * c + j) + 1 ≤ r * c := place_lt hi hj
  calc (i * c + j) * e + e = (i * c + j + 1) * e := by ring
    _ ≤ r * c * e := Nat.mul_le_mul_right _ hplace

theorem element_le' {r c e i j : ℕ} (hi : i < r) (hj : j < c) :
    (j * r + i) * e + e ≤ r * c * e := by
  rw [Nat.mul_comm r c]
  exact element_le hj hi

theorem bidirectionalTranspose_eq (h : TransposeFits src dst row col elementSize alloc) :
    bidirectionalTranspose m src dst row col elementSize alloc =
      replay (transposeStores m src dst row col elementSize) m := by
  have hrow := h.rowPos
  have hcol := h.colPos
  have hsize := h.sizePos
  rw [bidirectionalTranspose, if_neg (not_or.mpr ⟨h.source, h.destination⟩), if_neg (by omega),
    transposeStores]
  by_cases hsame : src = dst
  · rw [if_pos hsame, if_neg (not_not.mpr hsame), bidirectionalTransposeInplace, if_neg h.source,
      if_neg (by omega)]
    have htotal := h.total hsame
    have hpos : 0 < row.toNat * col.toNat := Nat.mul_pos (by omega) (by omega)
    have hle : row.toNat * col.toNat ≤ row.toNat * col.toNat * elementSize :=
      Nat.le_mul_of_pos_right _ hsize
    have hnonzero : 0 < row.toNat * col.toNat * elementSize := Nat.mul_pos hpos hsize
    have helements : row.toNat * col.toNat % 2 ^ 64 = row.toNat * col.toNat :=
      Nat.mod_eq_of_lt (by omega)
    have hbytes : row.toNat * col.toNat * elementSize % 2 ^ 64 =
        row.toNat * col.toNat * elementSize := Nat.mod_eq_of_lt htotal
    simp only [helements, hbytes, Nat.mul_div_cancel _ hsize]
    rw [if_neg (not_not.mpr rfl), if_neg hnonzero.ne', if_neg (by rw [h.buffer hsame]; decide)]
    by_cases hsquare : row = col
    · rw [if_pos hsquare, if_pos hsquare]
      exact foldl_swap src col _ m
    · have hinside : ∀ p ∈ cells row col, elementOffset col elementSize p.1 p.2 + elementSize ≤
          row.toNat * col.toNat * elementSize ∧ elementOffset row elementSize p.2 p.1 +
          elementSize ≤ row.toNat * col.toNat * elementSize := by
        intro p hp
        obtain ⟨hi, hj⟩ := mem_cells.mp hp
        have hread := element_le (e := elementSize) hi hj
        have hwrite := element_le' (e := elementSize) hi hj
        rw [elementOffset_eq (by omega), elementOffset_eq (by omega)]
        exact ⟨hread, hwrite⟩
      have htemp := elementCopies_eq row col elementSize (fun _ k => m (src + k)) 0 fun _ => 0
      simp only [Nat.zero_add, ← Nat.add_assoc] at htemp
      rw [if_neg hsquare, if_neg hsquare, if_pos hinside, htemp]
      rfl
  · rw [if_neg hsame, if_pos hsame, ← elementCopies_eq]
    simp only [ProcessMemory.memcpy, Nat.add_assoc]

/-- The product of the sizes does not fit, and the code sees it. -/
theorem overflow_seen {elements e : ℕ} (h : 2 ^ 64 ≤ elements * e) :
    elements * e % 2 ^ 64 / e ≠ elements := by
  have hlt : elements * e % 2 ^ 64 < elements * e := (Nat.mod_lt _ (by norm_num)).trans_le h
  exact (Nat.div_lt_of_lt_mul (Nat.mul_comm elements e ▸ hlt)).ne

/-- What is not accepted leaves the memory as it is. -/
theorem bidirectionalTranspose_refused (hrow : row < 2 ^ 31) (hcol : col < 2 ^ 31)
    (h : ¬ TransposeFits src dst row col elementSize alloc) :
    bidirectionalTranspose m src dst row col elementSize alloc = m := by
  rw [bidirectionalTranspose]
  by_cases hnull : src = 0 ∨ dst = 0
  · rw [if_pos hnull]
  rw [if_neg hnull]
  by_cases hsign : row ≤ 0 ∨ col ≤ 0 ∨ elementSize = 0
  · rw [if_pos hsign]
  rw [if_neg hsign]
  obtain ⟨hsource, hdest⟩ := not_or.mp hnull
  by_cases hsame : src = dst
  · rw [if_pos hsame, bidirectionalTransposeInplace, if_neg hsource, if_neg hsign]
    have helements : row.toNat * col.toNat < 2 ^ 64 := by
      have hle : row.toNat * col.toNat ≤ 2 ^ 31 * 2 ^ 31 := Nat.mul_le_mul (by omega) (by omega)
      omega
    simp only [Nat.mod_eq_of_lt helements]
    by_cases htotal : row.toNat * col.toNat * elementSize < 2 ^ 64
    · have halloc : alloc = false := by
        by_contra halloc
        exact h ⟨hsource, hdest, by omega, by omega, by omega, fun _ => htotal,
          fun _ => by simpa using halloc⟩
      split_ifs <;> rfl
    · rw [if_pos (overflow_seen (not_lt.mp htotal))]
  · exact absurd ⟨hsource, hdest, by omega, by omega, by omega, fun heq => absurd heq hsame,
      fun heq => absurd heq hsame⟩ h

/-! ### The transposed matrix -/

section
variable {r c e : ℕ} {x : ℕ → UInt8}

/-- The copies of all elements write the transposed matrix. -/
theorem elementCopies_writes {source : ProcessMemory → ℕ → UInt8} (he : 0 < e)
    (htotal : r * c * e < 2 ^ 64) (hreads : Reads source m dst (r * c * e) (r * c * e) x) :
    Writes m (replay (elementCopies source dst r c e) m) dst (r * c * e) (transpose r c e x) := by
  have hcell : ∀ p ∈ cells (r : ℤ) c, p.1 < r ∧ p.2 < c := fun p hp => mem_cells.mp hp
  have hread : ∀ {i j : ℕ}, i < r → j < c → elementOffset (c : ℤ) e i j = (i * c + j) * e :=
    fun hi hj => by
      have hle := element_le (e := e) hi hj
      rw [elementOffset_eq (by rw [Int.toNat_natCast]; omega), Int.toNat_natCast]
  have hwrite : ∀ {i j : ℕ}, i < r → j < c → elementOffset (r : ℤ) e j i = (j * r + i) * e :=
    fun hi hj => by
      have hle := element_le' (e := e) hi hj
      rw [elementOffset_eq (by rw [Int.toNat_natCast]; omega), Int.toNat_natCast]
  refine writes_of_settled ?_ ?_ (Framed.refl m _ _) fun p hp => Or.inl ?_
  · intro s hs a ⟨ha, ha'⟩
    obtain ⟨⟨i, j⟩, hp, rfl⟩ := List.mem_map.mp hs
    obtain ⟨hi, hj⟩ : i < r ∧ j < c := hcell _ hp
    have hle := element_le' (e := e) hi hj
    simp only [hwrite hi hj] at ha ha'
    omega
  · intro s hs m' hm' a ⟨ha, ha'⟩
    obtain ⟨⟨i, j⟩, hp, rfl⟩ := List.mem_map.mp hs
    obtain ⟨hi, hj⟩ : i < r ∧ j < c := hcell _ hp
    have hle := element_le (e := e) hi hj
    simp only [hwrite hi hj, hread hi hj] at ha ha' ⊢
    have hplace : a - dst = (j * r + i) * e + (a - (dst + (j * r + i) * e)) := by omega
    rw [hplace, transpose_at x hi (by omega), hreads m' hm' _ (by omega)]
  · have hk : p / e < c * r := Nat.div_lt_of_lt_mul (by rwa [Nat.mul_comm, Nat.mul_comm c r])
    have hr : 0 < r := Nat.pos_of_mul_pos_left (Nat.zero_lt_of_lt hk)
    have hi : p / e % r < r := Nat.mod_lt _ hr
    have hj : p / e / r < c := Nat.div_lt_of_lt_mul (by rwa [Nat.mul_comm])
    refine ⟨_, List.mem_map_of_mem (a := (p / e % r, p / e / r)) (mem_cells.mpr ⟨hi, hj⟩), ?_⟩
    have hlt := Nat.mod_lt p he
    have hdiv := Nat.div_add_mod' p e
    simp only [Store.Covers, hwrite hi hj, Nat.div_add_mod']
    omega

/-- A place is in one block only. -/
theorem block_iff {k k' b : ℕ} (hb : b < e) : k' * e ≤ k * e + b ∧ k * e + b < k' * e + e ↔ k = k' := by
  constructor
  · rintro ⟨hle, hlt⟩
    have hk' : k' * e < (k + 1) * e := by
      rw [Nat.add_mul, Nat.one_mul]
      omega
    have hk : k * e < (k' + 1) * e := by
      rw [Nat.add_mul, Nat.one_mul]
      omega
    have hk' := Nat.lt_of_mul_lt_mul_right hk'
    have hk := Nat.lt_of_mul_lt_mul_right hk
    omega
  · rintro rfl
    omega

/-- An exchange of two different elements. -/
theorem swap_at {k k₁ k₂ b : ℕ} (hb : b < e) (hne : k₁ ≠ k₂) :
    swap m (src + k₁ * e) (src + k₂ * e) e (src + (k * e + b)) =
      m (src + (Equiv.swap k₁ k₂ k * e + b)) := by
  have hcovers : ∀ k', (src + k' * e ≤ src + (k * e + b) ∧
      src + (k * e + b) < src + k' * e + e) ↔ k = k' := fun k' => by
    rw [← block_iff hb]
    omega
  simp only [swap, ProcessMemory.memcpy, ProcessMemory.copyIn, hcovers]
  by_cases h₂ : k = k₂
  · subst h₂
    rw [if_pos rfl, Equiv.swap_apply_right]
    congr 1
    omega
  rw [if_neg h₂]
  by_cases h₁ : k = k₁
  · subst h₁
    rw [if_pos rfl, Equiv.swap_apply_left]
    congr 1
    omega
  · rw [if_neg h₁, Equiv.swap_apply_of_ne_of_ne h₁ h₂]

/-- The numbers of two elements are different, unless rows and columns are the same. -/
theorem element_inj {n i j i' j' : ℕ} (hj : j < n) (hj' : j' < n) :
    i * n + j = i' * n + j' ↔ i = i' ∧ j = j' := by
  constructor
  · intro h
    have hrow := congrArg (· / n) h
    have hcol := congrArg (· % n) h
    simp only [add_mul_div_of_lt hj, add_mul_div_of_lt hj', add_mul_mod_of_lt hj,
      add_mul_mod_of_lt hj'] at hrow hcol
    exact ⟨hrow, hcol⟩
  · rintro ⟨rfl, rfl⟩
    rfl

/-- Different pairs above the diagonal are exchanged: every element is moved at most once. -/
theorem exchanges_at {n b : ℕ} (hb : b < e) (htotal : n * n * e < 2 ^ 64) :
    ∀ (l : List (ℕ × ℕ)) (m : ProcessMemory), l.Nodup → (∀ p ∈ l, p.1 < p.2 ∧ p.2 < n) →
    ∀ i < n, ∀ j < n, replay (exchanges src n e l m) m (src + ((i * n + j) * e + b)) =
      if (i, j) ∈ l ∨ (j, i) ∈ l then m (src + ((j * n + i) * e + b))
      else m (src + ((i * n + j) * e + b))
  | [], _, _, _, i, _, j, _ => by simp [exchanges]
  | (i₁, j₁) :: l, m, hnodup, habove, i, hi, j, hj => by
    obtain ⟨hnew, hnodup⟩ := List.nodup_cons.mp hnodup
    obtain ⟨⟨hlt, hj₁⟩, hrest⟩ := List.forall_mem_cons.mp habove
    have hi₁ : i₁ < n := lt_trans hlt hj₁
    have hoffset : ∀ {i' j' : ℕ}, i' < n → j' < n →
        elementOffset (n : ℤ) e i' j' = (i' * n + j') * e := fun hi' hj' => by
      have hle := element_le (e := e) hi' hj'
      rw [elementOffset_eq (by rw [Int.toNat_natCast]; omega), Int.toNat_natCast]
    have hne : i₁ * n + j₁ ≠ j₁ * n + i₁ := fun h => by
      have := ((element_inj hj₁ hi₁).mp h).1
      omega
    have hswap : ∀ {i' j' : ℕ}, i' < n → j' < n →
        swap m (src + (i₁ * n + j₁) * e) (src + (j₁ * n + i₁) * e) e
          (src + ((i' * n + j') * e + b)) =
        if i' = i₁ ∧ j' = j₁ ∨ i' = j₁ ∧ j' = i₁ then m (src + ((j' * n + i') * e + b))
          else m (src + ((i' * n + j') * e + b)) := by
      intro i' j' hi' hj'
      rw [swap_at hb hne]
      split_ifs with hpair
      · rcases hpair with ⟨rfl, rfl⟩ | ⟨rfl, rfl⟩
        · rw [Equiv.swap_apply_left]
        · rw [Equiv.swap_apply_right]
      · obtain ⟨h₁, h₂⟩ := not_or.mp hpair
        rw [Equiv.swap_apply_of_ne_of_ne (mt (element_inj hj' hj₁).mp h₁)
          (mt (element_inj hj' hi₁).mp h₂)]
    have hrun : replay (exchanges src n e ((i₁, j₁) :: l) m) m =
        replay (exchanges src n e l (swap m (src + (i₁ * n + j₁) * e) (src + (j₁ * n + i₁) * e) e))
          (swap m (src + (i₁ * n + j₁) * e) (src + (j₁ * n + i₁) * e) e) := by
      rw [← foldl_swap, ← foldl_swap, List.foldl_cons, hoffset hi₁ hj₁, hoffset hj₁ hi₁]
    rw [hrun, exchanges_at hb htotal l _ hnodup hrest i hi j hj, hswap hi hj, hswap hj hi]
    simp only [List.mem_cons, Prod.mk.injEq]
    -- A pair that is still to come is not the one that has been exchanged.
    by_cases hlater : (i, j) ∈ l ∨ (j, i) ∈ l
    · have hother : ¬ (j = i₁ ∧ i = j₁ ∨ j = j₁ ∧ i = i₁) := by
        rintro (⟨rfl, rfl⟩ | ⟨rfl, rfl⟩)
        · rcases hlater with hlater | hlater
          · exact absurd hlt (hrest _ hlater).1.not_gt
          · exact hnew hlater
        · rcases hlater with hlater | hlater
          · exact hnew hlater
          · exact absurd hlt (hrest _ hlater).1.not_gt
      rw [if_pos hlater, if_neg hother, if_pos (by tauto)]
    · rw [if_neg hlater]
      by_cases hpair : i = i₁ ∧ j = j₁ ∨ i = j₁ ∧ j = i₁
      · rw [if_pos hpair, if_pos (by tauto)]
      · rw [if_neg hpair, if_neg (by tauto)]

theorem mem_aboveDiagonal {p : ℕ × ℕ} :
    p ∈ aboveDiagonal row col ↔ p.1 < row.toNat ∧ p.2 < col.toNat ∧ p.1 < p.2 := by
  rw [aboveDiagonal, List.mem_filter, mem_cells, decide_eq_true_eq, and_assoc]

/-- The exchanges stay inside if both elements of every pair do. -/
theorem exchanges_within {stride : ℤ} {base n : ℕ} :
    ∀ {l : List (ℕ × ℕ)} {m : ProcessMemory}, Within (exchanges src stride e l m) base n ↔
      ∀ p ∈ l, (e = 0 ∨ base ≤ src + elementOffset stride e p.1 p.2 ∧
          src + elementOffset stride e p.1 p.2 + e ≤ base + n) ∧
        (e = 0 ∨ base ≤ src + elementOffset stride e p.2 p.1 ∧
          src + elementOffset stride e p.2 p.1 + e ≤ base + n)
  | [], m => by simp [exchanges]
  | p :: l, m => by
    rw [exchanges, within_cons, within_cons, Store.within_iff, Store.within_iff, exchanges_within,
      List.forall_mem_cons, and_assoc]

/-- A square matrix is transposed where it is. -/
theorem exchanges_writes {n : ℕ} (he : 0 < e) (htotal : n * n * e < 2 ^ 64) :
    Writes m (replay (exchanges src n e (aboveDiagonal n n) m) m) src (n * n * e)
      (transpose n n e fun k => m (src + k)) := by
  have hpairs : ∀ p ∈ aboveDiagonal (n : ℤ) n, p.1 < p.2 ∧ p.2 < n := fun p hp => by
    have hp := mem_aboveDiagonal.mp hp
    exact ⟨hp.2.2, hp.2.1⟩
  have hnodup : (aboveDiagonal (n : ℤ) n).Nodup :=
    (List.nodup_range.product List.nodup_range).filter _
  refine ⟨fun p hp => ?_, fun a ha => replay_frame (exchanges_within.mpr fun p hp => ?_) ha⟩
  · obtain ⟨i, hi, j, hj, b, hb, rfl⟩ := exists_place (show p < n * (n * e) by rwa [← Nat.mul_assoc])
    have hplace : i * (n * e) + (j * e + b) = (i * n + j) * e + b := by ring
    rw [hplace, exchanges_at hb htotal _ m hnodup hpairs i hi j hj, transpose_at _ hj hb]
    split_ifs with hpair
    · rfl
    · have heq : i = j := by
        by_contra hne
        rcases Nat.lt_or_gt_of_ne hne with hlt | hlt
        · exact hpair (Or.inl (mem_aboveDiagonal.mpr ⟨hi, hj, hlt⟩))
        · exact hpair (Or.inr (mem_aboveDiagonal.mpr ⟨hj, hi, hlt⟩))
      rw [heq]
  · obtain ⟨hlt, hj⟩ := hpairs p hp
    have hi := hlt.trans hj
    have hle := element_le (e := e) hi hj
    have hle' := element_le (e := e) hj hi
    rw [elementOffset_eq (by rw [Int.toNat_natCast]; omega),
      elementOffset_eq (by rw [Int.toNat_natCast]; omega), Int.toNat_natCast]
    omega

/-- Whether source and destination are one buffer or two, the destination becomes the transposed
    matrix. -/
theorem bidirectionalTranspose_writes (hr : 0 < r) (hc : 0 < c) (he : 0 < e)
    (htotal : r * c * e < 2 ^ 64) (hsrc : src ≠ 0) (hdst : dst ≠ 0)
    (halloc : src = dst → alloc = true)
    (hapart : src ≠ dst → Apart ⟨r * c * e, src⟩ ⟨r * c * e, dst⟩) :
    Writes m (bidirectionalTranspose m src dst r c e alloc) dst (r * c * e)
      (transpose r c e fun k => m (src + k)) := by
  have hfits : TransposeFits src dst r c e alloc :=
    ⟨hsrc, hdst, by omega, by omega, he, fun _ => by simpa using htotal, halloc⟩
  rw [bidirectionalTranspose_eq hfits, transposeStores]
  by_cases hsame : src = dst
  · rw [if_neg (not_not.mpr hsame)]
    subst hsame
    by_cases hsquare : (r : ℤ) = c
    · obtain rfl : r = c := by exact_mod_cast hsquare
      rw [if_pos rfl]
      exact exchanges_writes he htotal
    · rw [if_neg hsquare]
      have htemp : Writes (fun _ => 0) (replay (elementCopies (fun _ k => m (src + k)) 0 r c e)
          fun _ => 0) 0 (r * c * e) (transpose r c e fun k => m (src + k)) :=
        elementCopies_writes he htotal (reads_copy _ _ _ _ _)
      constructor
      · intro p hp
        rw [replay_cons, replay_nil, Store.run_of_covers ⟨Nat.le_add_right _ _, by simpa using hp⟩,
          Nat.add_sub_cancel_left, ← htemp.bytes p hp, Nat.zero_add]
      · intro a ha
        refine replay_frame ?_ ha
        rw [within_cons, Store.within_iff]
        exact ⟨Or.inr ⟨le_rfl, by simp⟩, within_nil⟩
  · rw [if_pos hsame]
    exact elementCopies_writes he htotal (reads_apart m (hapart hsame))

/-- In place, the same bytes appear as in another buffer, and a second transposition restores the
    memory. Without a temporary buffer nothing happens. -/
theorem in_place_transpose (m : ProcessMemory) (src dst : ℕ) {r c e : ℕ} (alloc : Bool)
    (hr : 1 ≤ r) (hr' : r < 2 ^ 31) (hc : 1 ≤ c) (hc' : c < 2 ^ 31) (he : 1 ≤ e)
    (htotal : r * c * e < 2 ^ 63) (hsrc : src ≠ 0) (hdst : dst ≠ 0)
    (hapart : Apart ⟨r * c * e, src⟩ ⟨r * c * e, dst⟩) :
    (∀ k < r * c * e, bidirectionalTranspose m src src r c e true (src + k) =
      bidirectionalTranspose m src dst r c e alloc (dst + k)) ∧
    bidirectionalTranspose (bidirectionalTranspose m src src r c e true) src src c r e true = m ∧
    bidirectionalTranspose m src src r c e false = m := by
  have hpos : 0 < r * c * e := Nat.mul_pos (Nat.mul_pos hr hc) he
  have hne : src ≠ dst := by
    rintro rfl
    rcases hapart with hapart | hapart <;> exact absurd hapart (by simpa using hpos.ne')
  have hinplace : Writes m (bidirectionalTranspose m src src r c e true) src (r * c * e)
      (transpose r c e fun k => m (src + k)) :=
    bidirectionalTranspose_writes hr hc he (htotal.trans (by norm_num)) hsrc hsrc (fun _ => rfl)
      fun hne => absurd rfl hne
  have hother : Writes m (bidirectionalTranspose m src dst r c e alloc) dst (r * c * e)
      (transpose r c e fun k => m (src + k)) :=
    bidirectionalTranspose_writes hr hc he (htotal.trans (by norm_num)) hsrc hdst
      (fun heq => absurd heq hne) fun _ => hapart
  have hsize : c * r * e = r * c * e := by rw [Nat.mul_comm c r]
  refine ⟨fun k hk => (hinplace.bytes k hk).trans (hother.bytes k hk).symm, ?_, ?_⟩
  · have hback := bidirectionalTranspose_writes (m := bidirectionalTranspose m src src r c e true)
      hc hr he (hsize ▸ htotal.trans (by norm_num)) hsrc hsrc (fun _ => rfl)
      fun hne => absurd rfl hne
    rw [hsize] at hback
    funext a
    by_cases ha : src ≤ a ∧ a < src + r * c * e
    · obtain ⟨k, rfl⟩ := Nat.exists_eq_add_of_le ha.1
      have hk : k < r * c * e := by omega
      rw [hback.bytes k hk, transpose_congr (fun q hq => hinplace.bytes q (hsize ▸ hq))
        (hsize.symm ▸ hk), transpose_transpose _ hk]
    · exact (hback.frame a ha).trans (hinplace.frame a ha)
  · refine bidirectionalTranspose_refused (by exact_mod_cast hr') (by exact_mod_cast hc') ?_
    exact fun hfits => absurd (hfits.buffer rfl) (by decide)

/-- Two rows of three bytes. -/
theorem in_place_transpose_two_rows :
    bidirectionalTranspose (bidirectionalTranspose UInt8.ofNat 4096 4096 2 3 1 true)
      4096 4096 3 2 1 true = UInt8.ofNat :=
  (in_place_transpose UInt8.ofNat 4096 8192 true (by decide) (by decide) (by decide) (by decide)
    (by decide) (by decide) (by decide) (by decide) (Or.inl (by decide))).2.1

end

end DxRt.NpuFormatHandler
