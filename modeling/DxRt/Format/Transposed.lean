import DxRt.Format.Outputs
import DxRt.Format.Shortcut
import DxRt.Format.Transpose

/-! lib/npu_format_handler.cpp: channels first.

    An aligned input is transposed and then padded. A formatted input is grouped and then transposed,
    which is the same only for special shapes. An aligned output is decoded and then transposed; any
    other output is only copied. -/

namespace DxRt.NpuFormatHandler
open Blocks Stores

/-! ### Grouped first, transposed first -/

section
variable {c n e u p : ℕ}

/-- The groups are made, and then the part that is as large as the input is transposed. -/
def groupedFirst (c n e u : ℕ) (x : ℕ → UInt8) : ℕ → UInt8 := fun p =>
  if p < c * n * e then transpose c n e (group (n * e) c u x) p else group (n * e) c u x p

/-- There is one column of elements or one channel, or the groups are all channels, or whole elements
    that are as wide as a group. -/
def Commutes (c n e u : ℕ) : Prop := n = 1 ∨ c = 1 ∨ u = c ∨ u = e ∧ e ∣ c

theorem groupedFirst_eq (x : ℕ → UInt8) (hn : 0 < n) (he : 0 < e) (hu : 0 < u)
    (h : Commutes c n e u) (hp : p < n * e * alignUp c u) :
    groupedFirst c n e u x p = group (n * e) c u (transpose c n e x) p := by
  have hne : 0 < n * e := Nat.mul_pos hn he
  have htotal : n * e * c = c * n * e := by ring
  rw [groupedFirst]
  rcases h with rfl | rfl | rfl | ⟨rfl, hdvd⟩
  · have hread : group (1 * e) c u (transpose c 1 e x) p = group (1 * e) c u x p :=
      group_congr (fun q hq => transpose_col x (by rwa [htotal, Nat.mul_one] at hq)) hne hu
    rw [hread]
    split_ifs with hin
    · exact transpose_col _ (by rwa [Nat.mul_one] at hin)
    · rfl
  · have hread : group (n * e) 1 u (transpose 1 n e x) p = group (n * e) 1 u x p :=
      group_congr (fun q _ => transpose_row x q) hne hu
    rw [hread, transpose_row, ite_self]
  · rw [(alignUp_eq_iff hu).mpr dvd_rfl, htotal] at hp
    rw [if_pos hp, group_self _ (by rwa [htotal])]
    exact transpose_congr (fun q hq => group_self x (by rwa [htotal])) hp
  · rw [(alignUp_eq_iff hu).mpr hdvd, htotal] at hp
    have hsame : c * n = n * u * (c / u) := by
      rw [Nat.mul_assoc, Nat.mul_div_cancel' hdvd, Nat.mul_comm]
    rw [if_pos hp, group_eq_transpose _ hdvd (by rwa [htotal])]
    rw [transpose_congr (fun q hq => group_eq_transpose x hdvd (by rwa [htotal])) hp]
    exact transpose_comm hsame x hp

/-- A place of the first group. -/
theorem group_first (x : ℕ → UInt8) {row col unit i j : ℕ} (hi : i < row) (hj : j < unit)
    (hcol : j < col) : group row col unit x (i * unit + j) = x (i * col + j) := by
  have hat : group row col unit x (0 * (row * unit) + (i * unit + j)) =
      if 0 * unit + j < col then x (i * col + (0 * unit + j)) else 0 := group_at x hi hj
  simpa [hcol] using hat

/-- A byte of one of the first channels, which comes from the first column. -/
theorem transpose_first (x : ℕ → UInt8) {k b : ℕ} (hk : k < c) (hb : b < e) :
    transpose c n e x (k * e + b) = x (k * n * e + b) := by
  have hat : transpose c n e x ((0 * c + k) * e + b) = x ((k * n + 0) * e + b) := transpose_at x hk hb
  simpa using hat

/-- A place that gets different bytes of the input, one way and the other. -/
def Conflict (c n e u : ℕ) : Prop :=
  ∃ p < n * e * alignUp c u, ∃ s < c * n * e, ∃ t, t ≠ s ∧ ∀ x : ℕ → UInt8,
    groupedFirst c n e u x p = x s ∧ group (n * e) c u (transpose c n e x) p = x t

/-- Rows that are padded: the end of the last element but one is moved behind the part that is
    transposed. -/
theorem conflict_padded (hc : 2 ≤ c) (hn : 2 ≤ n) (he : 0 < e) (hu : c < u) : Conflict c n e u := by
  obtain ⟨n, rfl⟩ : ∃ k, n = k + 2 := ⟨n - 2, by omega⟩
  obtain ⟨c, rfl⟩ : ∃ k, c = k + 2 := ⟨c - 2, by omega⟩
  have halign : alignUp (c + 2) u = u := by
    rw [alignUp, Nat.div_eq_of_lt_le (k := 1) (by omega) (by omega), Nat.one_mul]
  have helement : ((n + 1) * (c + 2) + c) * e + (e - 1) + (e + 1) = (c + 2) * (n + 2) * e := by
    have hring : ((n + 1) * (c + 2) + c) * e + 2 * e = (c + 2) * (n + 2) * e := by ring
    omega
  obtain ⟨s, hs⟩ : ∃ s, s = ((n + 1) * (c + 2) + c) * e + (e - 1) := ⟨_, rfl⟩
  have hi : s / (c + 2) < (n + 2) * e := by
    refine Nat.div_lt_of_lt_mul ?_
    have hring : (c + 2) * ((n + 2) * e) = (c + 2) * (n + 2) * e := by ring
    omega
  have hj := Nat.mod_lt s (by omega : 0 < c + 2)
  have hdiv := Nat.div_add_mod' s (c + 2)
  have hmove : ∀ x : ℕ → UInt8, group ((n + 2) * e) (c + 2) u x (s / (c + 2) * u + s % (c + 2)) = x s :=
    fun x => by rw [group_first x hi (by omega) hj, hdiv]
  have hfar : e ≤ s / (c + 2) := by
    rw [Nat.le_div_iff_mul_le (by omega)]
    have hring : (c + 2) * (n + 2) * e = e * (c + 2) + ((c + 2) * n * e + c * e + 2 * e) := by ring
    omega
  have hbehind : (c + 2) * (n + 2) * e ≤ s / (c + 2) * u + s % (c + 2) + 1 := by
    have hle : s / (c + 2) * (c + 2 + 1) ≤ s / (c + 2) * u := Nat.mul_le_mul_left _ hu
    rw [Nat.mul_succ] at hle
    omega
  refine ⟨s / (c + 2) * u + s % (c + 2), ?_, s, by omega, (c * (n + 2) + (n + 1)) * e + (e - 1), ?_,
    fun x => ⟨?_, ?_⟩⟩
  · rw [halign]
    exact place_lt hi (by omega)
  · intro heq
    have hless : (c * (n + 2) + (n + 1)) * e + (n + 1) * e = ((n + 1) * (c + 2) + c) * e := by ring
    have hpos : 0 < (n + 1) * e := Nat.mul_pos n.succ_pos he
    omega
  · rw [groupedFirst]
    split_ifs with hin
    · -- The last byte stays where it is.
      have hlast : s / (c + 2) * u + s % (c + 2) = ((n + 1) * (c + 2) + (c + 1)) * e + (e - 1) := by
        have hring : ((n + 1) * (c + 2) + (c + 1)) * e = ((n + 1) * (c + 2) + c) * e + e := by ring
        omega
      have hsource : ((c + 1) * (n + 2) + (n + 1)) * e + (e - 1) =
          ((n + 1) * (c + 2) + (c + 1)) * e + (e - 1) := by ring_nf
      rw [hlast, transpose_at _ (by omega) (by omega), hsource, ← hlast, hmove]
    · exact hmove x
  · rw [hmove, hs, transpose_at x (by omega) (by omega)]

/-- The buffer has at least the size of the input. -/
theorem size_le_aligned (hu : 0 < u) : c * n * e ≤ n * e * alignUp c u := by
  have hle : n * e * c ≤ n * e * alignUp c u := Nat.mul_le_mul_left _ (le_alignUp c hu)
  have hring : n * e * c = c * n * e := by ring
  omega

/-- Groups that are narrower than an element: the end of the first element comes from another one. -/
theorem conflict_narrow (hn : 2 ≤ n) (hu : 0 < u) (huc : u < c) (hue : u < e) :
    Conflict c n e u := by
  have hsize : e ≤ c * n * e := Nat.le_mul_of_pos_left _ (Nat.mul_pos (by omega) (by omega))
  have hi : (e - 1) / u < n * e := by
    have hle : (e - 1) / u ≤ e - 1 := Nat.div_le_self ..
    have hmul : e ≤ n * e := Nat.le_mul_of_pos_left _ (by omega)
    omega
  have hpos : 0 < (e - 1) / u := Nat.div_pos (by omega) hu
  have hj := Nat.mod_lt (e - 1) hu
  have hdiv := Nat.div_add_mod' (e - 1) u
  obtain ⟨s, hs⟩ : ∃ s, s = (e - 1) / u * c + (e - 1) % u := ⟨_, rfl⟩
  have hlow : e ≤ s := by
    have hle : (e - 1) / u * (u + 1) ≤ (e - 1) / u * c := Nat.mul_le_mul_left _ huc
    rw [Nat.mul_succ] at hle
    omega
  have hhigh : s < c * e := by
    have hle : ((e - 1) / u + 1) * c ≤ e * c := Nat.mul_le_mul_right _ (by
      have hle : (e - 1) / u ≤ e - 1 := Nat.div_le_self ..
      omega)
    rw [Nat.add_mul, Nat.one_mul, Nat.mul_comm e c] at hle
    omega
  have hmove : ∀ x : ℕ → UInt8, group (n * e) c u x (e - 1) = x s := fun x => by
    have hfirst := group_first x hi hj (by omega : (e - 1) % u < c)
    rwa [hdiv, ← hs] at hfirst
  have hk : s / e < c := Nat.div_lt_of_lt_mul (by rwa [Nat.mul_comm])
  have hkpos : 0 < s / e := Nat.div_pos hlow (by omega)
  have hb := Nat.mod_lt s (by omega : 0 < e)
  have hsplit := Nat.div_add_mod' s e
  have hin : c * e ≤ c * n * e := Nat.mul_le_mul_right _ (Nat.le_mul_of_pos_right _ (by omega))
  refine ⟨e - 1, by have := size_le_aligned (c := c) (n := n) (e := e) hu; omega, s, by omega,
    s / e * n * e + s % e, ?_, fun x => ⟨?_, ?_⟩⟩
  · intro heq
    have hmul : s / e * 2 * e ≤ s / e * n * e := Nat.mul_le_mul_right _ (Nat.mul_le_mul_left _ hn)
    have hring : s / e * 2 * e = s / e * e + s / e * e := by ring
    have hgrow : 0 < s / e * e := Nat.mul_pos hkpos (by omega)
    omega
  · have hstay : transpose c n e (group (n * e) c u x) (0 * e + (e - 1)) =
        group (n * e) c u x (0 * n * e + (e - 1)) := transpose_first _ (by omega) (by omega)
    rw [Nat.zero_mul, Nat.zero_mul, Nat.zero_mul, Nat.zero_add, hmove] at hstay
    rw [groupedFirst, if_pos (by omega), hstay]
  · have hsource := transpose_first (n := n) x hk hb
    rw [hmove, ← hsplit, hsource, hsplit]

/-- Groups that are wider than an element: the last element of the first group comes from another
    group, one way only. -/
theorem conflict_wide (hn : 2 ≤ n) (he : 0 < e) (heu : e < u) (huc : u < c) : Conflict c n e u := by
  obtain ⟨q, hq⟩ : ∃ q, q = (u - 1) / e := ⟨_, rfl⟩
  have hqpos : 0 < q := hq ▸ Nat.div_pos (by omega) he
  have hdiv := Nat.div_add_mod' (u - 1) e
  have hmod := Nat.mod_lt (u - 1) he
  rw [← hq] at hdiv
  have hqu : q < u := by
    have hle : q * 1 ≤ q * e := Nat.mul_le_mul_left _ he
    omega
  have hfar : u ≤ q * n * e := by
    have hmul : q * 2 * e ≤ q * n * e := Nat.mul_le_mul_right _ (Nat.mul_le_mul_left _ hn)
    have hring : q * 2 * e = q * e + q * e := by ring
    have hgrow : 1 * e ≤ q * e := Nat.mul_le_mul_right _ hqpos
    omega
  have hi : q * n * e / u < n * e := by
    refine Nat.div_lt_of_lt_mul ?_
    have hring : q * n * e = q * (n * e) := by ring
    rw [hring]
    exact Nat.mul_lt_mul_of_pos_right hqu (Nat.mul_pos (by omega) he)
  have hj := Nat.mod_lt (q * n * e) (by omega : 0 < u)
  have hsplit := Nat.div_add_mod' (q * n * e) u
  have hipos : 0 < q * n * e / u := Nat.div_pos hfar (by omega)
  have hrow : c ≤ c * n * e := by
    rw [Nat.mul_assoc]
    exact Nat.le_mul_of_pos_right _ (Nat.mul_pos (by omega) he)
  have hplace : q * n * e / u * c + q * n * e % u < n * e * c := place_lt hi (by omega)
  have htotal : n * e * c = c * n * e := by ring
  refine ⟨q * e, by have := size_le_aligned (c := c) (n := n) (e := e) (u := u) (by omega); omega,
    q * n * e / u * c + q * n * e % u, by omega, q * n * e, ?_, fun x => ⟨?_, ?_⟩⟩
  · intro heq
    have hless : q * n * e / u * (u + 1) ≤ q * n * e / u * c := Nat.mul_le_mul_left _ huc
    rw [Nat.mul_succ] at hless
    omega
  · have hfirst := transpose_first (n := n) (group (n * e) c u x) (by omega : q < c) he
    have hgroup := group_first x hi hj (by omega : q * n * e % u < c)
    rw [hsplit] at hgroup
    rw [Nat.add_zero, Nat.add_zero] at hfirst
    rw [groupedFirst, if_pos (by omega), hfirst, hgroup]
  · have hgroup := group_first (transpose c n e x) (Nat.mul_pos (by omega : 0 < n) he)
      (by omega : q * e < u) (by omega : q * e < c)
    have hfirst := transpose_first (n := n) x (by omega : q < c) he
    rw [Nat.add_zero, Nat.add_zero] at hfirst
    rw [Nat.zero_mul, Nat.zero_mul, Nat.zero_add, hfirst] at hgroup
    exact hgroup

/-- Groups as wide as an element, which do not end with the channels. -/
theorem conflict_ragged (hn : 2 ≤ n) (hec : e < c) (hdvd : ¬ e ∣ c) (he : 0 < e) :
    Conflict c n e e := by
  have he₂ : 2 ≤ e := by
    by_contra hsmall
    obtain rfl : e = 1 := by omega
    exact hdvd (one_dvd c)
  have hb := Nat.mod_lt c he
  have hbpos : 0 < c % e := Nat.pos_of_ne_zero fun hzero => hdvd (Nat.dvd_of_mod_eq_zero hzero)
  have hsplit := Nat.div_add_mod' c e
  have hk : c / e < c := Nat.div_lt_self (by omega) he₂
  have hrow : n * 1 < n * e := Nat.mul_lt_mul_of_pos_left he₂ (by omega)
  have htotal : n * c < c * n * e := by
    rw [Nat.mul_comm n c]
    have hpos : 0 < c * n := Nat.mul_pos (by omega) (by omega)
    calc c * n = c * n * 1 := (Nat.mul_one _).symm
      _ < c * n * e := Nat.mul_lt_mul_of_pos_left he₂ hpos
  have hin : 1 * c ≤ n * c := Nat.mul_le_mul_right _ (by omega)
  refine ⟨e, by have := size_le_aligned (c := c) (n := n) (e := e) he; omega, n * c, htotal,
    c / e * n * e + c % e, ?_, fun x => ⟨?_, ?_⟩⟩
  · intro heq
    have hring : n * c = c / e * n * e + n * (c % e) := by
      calc n * c = n * (c / e * e + c % e) := by rw [hsplit]
        _ = c / e * n * e + n * (c % e) := by ring
    have hmul : 2 * (c % e) ≤ n * (c % e) := Nat.mul_le_mul_right _ hn
    omega
  · have hfirst := transpose_first (n := n) (group (n * e) c e x) (by omega : 1 < c) he
    have hgroup := group_first x (by omega : n < n * e) he (by omega : 0 < c)
    rw [Nat.add_zero, Nat.add_zero, Nat.one_mul, Nat.one_mul] at hfirst
    rw [Nat.add_zero, Nat.add_zero] at hgroup
    rw [groupedFirst, if_pos (by omega), hfirst, hgroup]
  · have hgroup := group_first (transpose c n e x) (by omega : 1 < n * e) he (by omega : 0 < c)
    have hfirst := transpose_first (n := n) x hk hb
    rw [hsplit] at hfirst
    rw [Nat.add_zero, Nat.add_zero, Nat.one_mul, Nat.one_mul, hfirst] at hgroup
    exact hgroup

theorem conflict_of_not_commutes (hc : 0 < c) (hn : 0 < n) (he : 0 < e) (hu : 0 < u)
    (h : ¬ Commutes c n e u) : Conflict c n e u := by
  simp only [Commutes, not_or, not_and] at h
  obtain ⟨hn₁, hc₁, huc, hue⟩ := h
  rcases Nat.lt_or_gt_of_ne huc with hless | hmore
  · rcases Nat.lt_trichotomy u e with hlt | rfl | hgt
    · exact conflict_narrow (by omega) hu hless hlt
    · exact conflict_ragged (by omega) hless (hue rfl) he
    · exact conflict_wide (by omega) he hgt hless
  · exact conflict_padded (by omega) (by omega) he hmore

/-- The two orders agree on every input exactly for the special shapes. -/
theorem groupedFirst_eq_iff (hc : 0 < c) (hn : 0 < n) (he : 0 < e) (hu : 0 < u) :
    (∀ x : ℕ → UInt8, ∀ p < n * e * alignUp c u,
      groupedFirst c n e u x p = group (n * e) c u (transpose c n e x) p) ↔ Commutes c n e u := by
  constructor
  · intro hall
    by_contra hnot
    obtain ⟨p, hp, s, -, t, hne, hx⟩ := conflict_of_not_commutes hc hn he hu hnot
    obtain ⟨hlate, hearly⟩ := hx fun q => if q = s then 1 else 0
    have hsame := hall (fun q => if q = s then 1 else 0) p hp
    rw [hlate, hearly, if_pos rfl, if_neg hne] at hsame
    cases hsame
  · exact fun h x p hp => groupedFirst_eq x hn he hu h hp

end

/-! ### Inputs -/

open EncodeState

section
variable {x : Input} {c n e col unit : ℕ} {alloc : Allocs} {s : EncodeState} {i : ℕ}

namespace EncodeState.Input

/-- Columns and units of an aligned tensor count elements. -/
def columns (x : Input) (channel : ℤ) : ℤ :=
  if x.info.layout = .formatted then channel else x.info.scale channel

def units (x : Input) : ℤ := x.columns x.info.alignUnit

/-- The encoder of the layout. -/
def layoutEncoder (x : Input) (channel : ℤ) (m : ProcessMemory) (z y : Bytes) (alloc : Bool) :
    Encoded :=
  if x.info.layout = .formatted then encodeFormatted m z y (x.columns channel) x.units alloc
  else encode m z y (x.columns channel) x.units alloc

end EncodeState.Input

/-- An input of `c` channels of `n` elements, `e` bytes each, that is encoded in rows of `col` bytes
    and units of `unit` bytes. The encoded buffer has room for the encoded input, and there is memory
    for the temporary buffers. -/
structure ChannelFirst (x : Input) (c n e col unit : ℕ) (alloc : Allocs) : Prop where
  layout : x.info.layout = .formatted ∨ x.info.layout = .aligned
  transpose : x.info.transpose = .channelFirstToLast
  channel : x.info.dim? 0 = some (c : ℤ)
  outer : x.info.outerSize = n
  element : dataSizeRmapinfo x.info.dtypeEncoded = some e
  columns : x.columns c = col
  units : x.units = unit
  size : x.original.size = c * n * e
  channelPos : 0 < c
  outerPos : 0 < n
  rows : RowSizes x.original.size col unit
  room : x.original.size / col * alignUp col unit ≤ x.encodedSize
  buffers : Buffers x.original x.encoded alloc.encoder
  encoder : alloc.encoder = true
  buffer : alloc.transpose = true

/-- The encoded buffer is afterwards what the encoder of the layout makes of the transposed input,
    wherever that may be. -/
def EncodesTransposed (x : Input) (c n e : ℕ) (before after : ProcessMemory) : Prop :=
  ∀ (m : ProcessMemory) (z y : Bytes), z.size = x.original.size →
    (∀ k < z.size, m (z.data + k) = transpose c n e (bytesAt before x.original) k) →
    Buffers z y true → z.data ≠ y.data → x.encodedSize ≤ y.size →
    let out := x.layoutEncoder c m z y true
    out.ret = 0 ∧ ∀ p < out.output.size, after (x.encodedPtr + p) = out.memory (y.data + p)

/-- Input `i` is transposed and then encoded. -/
def TransposedFirst (x : Input) (c n e : ℕ) (alloc : Allocs) (s : EncodeState) (i : ℕ) : Prop :=
  ∃ s', s.encodeTensor i x alloc = some s' ∧ EncodesTransposed x c n e s.memory s'.memory

/-- `EncodeInputs` transposes the input and then encodes it. -/
def InputTransposedFirst (x : Input) (c n e : ℕ) (alloc : ℕ → Allocs) (m : ProcessMemory)
    (r : RequestData) : Prop :=
  ∃ s', encodeInputs false alloc none m r = (s', .returned 0) ∧
    EncodesTransposed x c n e m s'.memory

theorem inputTransposedFirst_iff {alloc : ℕ → Allocs} {m : ProcessMemory} {r : RequestData}
    (h : OnlyInput r x) (hdata : x.tensor.data ≠ 0) :
    InputTransposedFirst x c n e alloc m r ↔ TransposedFirst x c n e (alloc 0) ⟨m, r, []⟩ 0 := by
  rw [InputTransposedFirst, TransposedFirst, encodeInputs_only h hdata]
  cases EncodeState.encodeTensor ⟨m, r, []⟩ 0 x (alloc 0) <;> simp

theorem dataSize_pos {t : DataType} (h : dataSizeRmapinfo t = some e) : 0 < e ∧ e ≤ 8 := by
  cases t <;> simp [dataSizeRmapinfo] at h <;> omega

namespace ChannelFirst
variable (h : ChannelFirst x c n e col unit alloc)

include h

theorem size_le : x.original.size ≤ x.original.size / col * alignUp col unit := by
  have hpad : x.original.size / col * col ≤ x.original.size / col * alignUp col unit :=
    Nat.mul_le_mul_left _ (le_alignUp col h.rows.unitPos)
  rwa [Nat.div_mul_cancel h.rows.whole] at hpad

theorem size_lt : c * n * e < 2 ^ 64 := by
  have hle := h.size_le
  have htotal := h.rows.total
  have hsize := h.size
  omega

/-- A transposition from or into the encoded buffer. -/
theorem transposes (m : ProcessMemory) (src : ℕ) (hsrc : src ≠ 0)
    (hapart : src ≠ x.encodedPtr → Apart ⟨c * n * e, src⟩ ⟨c * n * e, x.encodedPtr⟩) :
    Writes m (bidirectionalTranspose m src x.encodedPtr c x.info.outerSize e alloc.transpose)
      x.encodedPtr (c * n * e) (Blocks.transpose c n e fun k => m (src + k)) := by
  rw [h.outer]
  exact bidirectionalTranspose_writes h.channelPos h.outerPos (dataSize_pos h.element).1 h.size_lt
    hsrc h.buffers.destination (fun _ => h.buffer) hapart

/-- An aligned input is transposed into the encoded buffer, and padded there. -/
theorem aligned (hlayout : x.info.layout = .aligned) : TransposedFirst x c n e alloc s i := by
  have hcol : x.info.scale c = col := by simpa [Input.columns, hlayout] using h.columns
  have hunit : x.info.scale x.info.alignUnit = unit := by
    simpa [Input.units, Input.columns, hlayout] using h.units
  have hwrites := h.transposes s.memory x.tensor.data h.buffers.source fun hne => by
    have hapart := h.buffers.apart hne
    have hle := h.size_le
    have hroom := h.room
    have hsize := h.size
    rw [Apart, Input.original, Input.encoded] at *
    simp only at *
    omega
  obtain ⟨m₁, hm₁⟩ : ∃ m₁, m₁ = bidirectionalTranspose s.memory x.tensor.data x.encodedPtr c
    x.info.outerSize e alloc.transpose := ⟨_, rfl⟩
  rw [← hm₁] at hwrites
  have hbuf : Buffers ⟨x.original.size, x.encodedPtr⟩ x.encoded alloc.encoder :=
    ⟨h.buffers.destination, h.buffers.destination, h.buffers.space, fun _ => h.encoder,
      fun hne => absurd rfl hne⟩
  have hrows : RowSizes (Bytes.mk x.original.size x.encodedPtr).size col unit := h.rows
  obtain ⟨m₂, hencode, hencoded⟩ := encode_writes (m := m₁) hrows hbuf h.room
  refine ⟨s.encoderDone ⟨m₂, ⟨x.original.size / col * alignUp col unit, x.encodedPtr⟩, 0⟩, ?_, ?_⟩
  · rw [EncodeState.encodeTensor, hlayout, h.transpose]
    simp only [EncodeState.alignedTransposed, h.channel, h.element, Option.bind_eq_bind,
      Option.bind_some, hcol, hunit, ← hm₁, hencode]
    rfl
  · intro m z y hz hbytes hzy hne hroom
    have hsmall : z.size / col * alignUp col unit ≤ y.size := hz ▸ h.room.trans hroom
    obtain ⟨m₃, hout, hwritten⟩ := encode_writes (m := m) (hz ▸ h.rows) hzy hsmall
    have hlayout' : x.info.layout ≠ .formatted := by rw [hlayout]; decide
    simp only [Input.layoutEncoder, if_neg hlayout', h.columns, h.units, hout, true_and]
    intro p hp
    rw [hz] at hp hwritten
    refine (hencoded.bytes p hp).trans (Eq.trans ?_ (hwritten.bytes p hp).symm)
    refine pad_congr h.rows.whole (fun k hk => ?_) hp
    exact (hwrites.bytes k (h.size ▸ hk)).trans (hbytes k (hz ▸ hk)).symm

/-- A formatted input is grouped into the encoded buffer, and transposed there. -/
theorem formatted (hlayout : x.info.layout = .formatted) : ∃ s', s.encodeTensor i x alloc = some s' ∧
    ∀ p < n * e * alignUp c unit, s'.memory (x.encodedPtr + p) =
      if x.tensor.data = x.encodedPtr then 0
      else groupedFirst c n e unit (bytesAt s.memory x.original) p := by
  obtain rfl : c = col := by
    have hcol : (c : ℤ) = col := by simpa [Input.columns, hlayout] using h.columns
    exact_mod_cast hcol
  have hunit : x.info.alignUnit = unit := by
    simpa [Input.units, Input.columns, hlayout] using h.units
  have hcount : x.original.size / c = n * e := by
    rw [h.size, Nat.mul_assoc, Nat.mul_div_cancel_left _ h.channelPos]
  obtain ⟨m₁, hencode, hencoded⟩ := encodeFormatted_writes (m := s.memory) h.rows h.buffers h.room
  have hwrites := h.transposes m₁ x.encodedPtr h.buffers.destination fun hne => absurd rfl hne
  have hle := h.size_le
  rw [hcount] at hencode hencoded hle
  refine ⟨{ s.encoderDone ⟨m₁, ⟨n * e * alignUp c unit, x.encodedPtr⟩, 0⟩ with
    memory := bidirectionalTranspose m₁ x.encodedPtr x.encodedPtr c x.info.outerSize e
      alloc.transpose }, ?_, fun p hp => ?_⟩
  · rw [EncodeState.encodeTensor, hlayout, h.transpose]
    simp only [EncodeState.formattedTransposed, h.channel, h.element, Option.bind_eq_bind,
      Option.bind_some, hunit, hencode]
    rfl
  · have hgrouped : ∀ q < n * e * alignUp c unit, m₁ (x.encodedPtr + q) =
        if x.tensor.data = x.encodedPtr then 0
        else group (n * e) c unit (bytesAt s.memory x.original) q := fun q hq => by
      refine (hencoded.bytes q hq).trans ?_
      by_cases hsame : x.tensor.data = x.encodedPtr
      · rw [if_pos hsame, if_pos (show x.original.data = x.encoded.data from hsame)]
      · rw [if_neg hsame, if_neg (show ¬ x.original.data = x.encoded.data from hsame)]
    rw [groupedFirst]
    by_cases hin : p < c * n * e
    · refine (hwrites.bytes p hin).trans ?_
      rw [if_pos hin, transpose_eq, transpose_eq]
      exact hgrouped _ ((transpose_place_lt hin).trans_le (h.size ▸ hle))
    · have hframe := hwrites.frame (x.encodedPtr + p) (by omega)
      rw [if_neg hin]
      exact hframe.trans (hgrouped p hp)

/-- What the encoder of groups makes of the transposed input. -/
theorem grouped (hlayout : x.info.layout = .formatted) {m : ProcessMemory} {z y : Bytes}
    {w : ℕ → UInt8} (hz : z.size = x.original.size)
    (hbytes : ∀ k < z.size, m (z.data + k) = Blocks.transpose c n e w k) (hzy : Buffers z y true)
    (hne : z.data ≠ y.data) (hroom : x.encodedSize ≤ y.size) :
    ∃ m', x.layoutEncoder c m z y true = ⟨m', ⟨n * e * alignUp c unit, y.data⟩, 0⟩ ∧
      ∀ p < n * e * alignUp c unit,
        m' (y.data + p) = group (n * e) c unit (Blocks.transpose c n e w) p := by
  obtain rfl : c = col := by
    have hcol : (c : ℤ) = col := by simpa [Input.columns, hlayout] using h.columns
    exact_mod_cast hcol
  have hcount : x.original.size / c = n * e := by
    rw [h.size, Nat.mul_assoc, Nat.mul_div_cancel_left _ h.channelPos]
  have hrow : 0 < n * e := Nat.mul_pos h.outerPos (dataSize_pos h.element).1
  obtain ⟨m', hout, hwritten⟩ :=
    encodeFormatted_writes (m := m) (hz ▸ h.rows) hzy (hz ▸ h.room.trans hroom)
  rw [hz, hcount] at hout hwritten
  refine ⟨m', ?_, fun p hp => ?_⟩
  · rw [Input.layoutEncoder, if_pos hlayout, h.columns, h.units, hout]
  · rw [hwritten.bytes p hp, if_neg hne]
    refine group_congr (fun q hq => hbytes q ?_) hrow h.rows.unitPos
    rw [hz, h.size]
    calc q < n * e * c := hq
      _ = c * n * e := by ring

/-- What the property says about an input `w`, with its transposition behind the encoded buffer. -/
theorem placed (hlayout : x.info.layout = .formatted) {r : RequestData}
    (hall : ∀ m, TransposedFirst x c n e alloc ⟨m, r, []⟩ 0) (w : ℕ → UInt8) :
    ∀ p < n * e * alignUp c unit,
      (if x.tensor.data = x.encodedPtr then 0 else groupedFirst c n e unit w p) =
        group (n * e) c unit (Blocks.transpose c n e w) p := by
  intro p hp
  obtain ⟨m₀, hm₀⟩ : ∃ m₀ : ProcessMemory, m₀ = fun a => w (a - x.tensor.data) := ⟨_, rfl⟩
  obtain ⟨s', hs', hmem⟩ := h.formatted (s := ⟨m₀, r, []⟩) (i := 0) hlayout
  obtain ⟨s'', hs'', hout⟩ := hall m₀
  obtain rfl : s' = s'' := Option.some.inj (hs'.symm.trans hs'')
  have hread : bytesAt m₀ x.original = w := by
    funext k
    simp only [bytesAt, hm₀, Input.original, Nat.add_sub_cancel_left]
  rw [hread] at hmem
  simp only [EncodesTransposed, hread] at hout
  obtain ⟨z, hz⟩ : ∃ z : Bytes, z = ⟨x.original.size, x.encodedPtr + x.encodedSize + 1⟩ := ⟨_, rfl⟩
  obtain ⟨m, hm⟩ : ∃ m : ProcessMemory, m = fun a => Blocks.transpose c n e w (a - z.data) := ⟨_, rfl⟩
  have hbytes : ∀ k < z.size, m (z.data + k) = Blocks.transpose c n e w k := fun k _ => by
    simp only [hm, Nat.add_sub_cancel_left]
  have hdata : z.data ≠ x.encoded.data := by
    rw [hz, Input.encoded]
    simp only
    omega
  have hzy : Buffers z x.encoded true :=
    ⟨by rw [hz]; exact Nat.succ_ne_zero _, h.buffers.destination, h.buffers.space,
      fun _ => rfl, fun _ => Or.inr (by rw [hz, Input.encoded]; exact Nat.le_succ _)⟩
  have hsize : z.size = x.original.size := by rw [hz]
  obtain ⟨m', henc, hgroup⟩ := h.grouped hlayout hsize hbytes hzy hdata le_rfl
  have hsame := (hout m z x.encoded hsize hbytes hzy hdata le_rfl).2 p (by rwa [henc])
  rw [henc] at hsame
  rw [← hmem p hp, hsame]
  exact hgroup p hp

/-- A formatted input that goes into another buffer and has one of the special shapes. -/
theorem commuting (hlayout : x.info.layout = .formatted) (hne : x.tensor.data ≠ x.encodedPtr)
    (hcomm : Commutes c n e unit) : TransposedFirst x c n e alloc s i := by
  obtain ⟨s', hs', hmem⟩ := h.formatted (s := s) (i := i) hlayout
  refine ⟨s', hs', fun m z y hz hbytes hzy hne' hroom => ?_⟩
  obtain ⟨m', henc, hgroup⟩ := h.grouped hlayout hz hbytes hzy hne' hroom
  rw [henc]
  refine ⟨rfl, fun p hp => ?_⟩
  rw [hmem p hp, if_neg hne,
    groupedFirst_eq _ h.outerPos (dataSize_pos h.element).1 h.rows.unitPos hcomm hp]
  exact (hgroup p hp).symm

/-- For the others one request is enough to see the difference, over all memories. -/
theorem commutes_of_transposed (hlayout : x.info.layout = .formatted) {r : RequestData}
    (hall : ∀ m, TransposedFirst x c n e alloc ⟨m, r, []⟩ 0) :
    x.tensor.data ≠ x.encodedPtr ∧ Commutes c n e unit := by
  have he := (dataSize_pos h.element).1
  have hplace := h.placed hlayout hall
  have hfirst : 0 < n * e * alignUp c unit :=
    Nat.mul_pos (Nat.mul_pos h.outerPos he)
      (lt_of_lt_of_le h.channelPos (le_alignUp c h.rows.unitPos))
  have hne : x.tensor.data ≠ x.encodedPtr := by
    intro hsame
    have hzero := hplace (fun _ => 1) 0 hfirst
    have hgroup := group_first (Blocks.transpose c n e fun _ => (1 : UInt8))
      (Nat.mul_pos h.outerPos he) h.rows.unitPos h.channelPos
    rw [Nat.zero_mul, Nat.zero_mul, Nat.add_zero, transpose_eq] at hgroup
    rw [if_pos hsame, hgroup] at hzero
    cases hzero
  refine ⟨hne, (groupedFirst_eq_iff h.channelPos h.outerPos he h.rows.unitPos).mp ?_⟩
  simpa only [if_neg hne] using hplace

/-- The input is transposed before it is encoded if it is aligned, or goes into another buffer and
    has one of the special shapes. -/
theorem transposedFirst (hcond : x.info.layout = .aligned ∨
    x.tensor.data ≠ x.encodedPtr ∧ Commutes c n e unit) : TransposedFirst x c n e alloc s i := by
  rcases h.layout with hlayout | hlayout
  · rcases hcond with haligned | ⟨hne, hcomm⟩
    · rw [hlayout] at haligned
      cases haligned
    · exact h.commuting hlayout hne hcomm
  · exact h.aligned hlayout

/-- And only then, whatever the request. -/
theorem of_transposedFirst {r : RequestData}
    (hall : ∀ m, TransposedFirst x c n e alloc ⟨m, r, []⟩ 0) :
    x.info.layout = .aligned ∨ x.tensor.data ≠ x.encodedPtr ∧ Commutes c n e unit := by
  rcases h.layout with hlayout | hlayout
  · exact Or.inr (h.commutes_of_transposed hlayout hall)
  · exact Or.inl hlayout

end ChannelFirst

end

/-! ### Outputs -/

open DecodeState

section
variable {x : Output} {c n e : ℕ} {alloc : Allocs} {response : Response} {s : DecodeState} {i : ℕ}

/-- Output `i` has both of its buffers. -/
structure HasOutput (s : DecodeState) (i : ℕ) (x : Output) : Prop where
  tensor : s.request.outputs[i]? = some x.tensor
  info : s.request.npuOutputTensorInfos[i]? = some x.info
  size : s.request.encodedOutputSizes[i]? = some x.encodedSize
  ptr : s.request.encodedOutputPtrs[i]? = some x.encodedPtr

namespace DecodeState.Output

/-- The memory with the decoded tensor in the buffer of the user. -/
def decodedMemory (x : Output) (channel : ℤ) (m : ProcessMemory) (alloc : Bool) : ProcessMemory :=
  if x.info.layout = .aligned then
    (decodeAligned m x.encoded x.decoded channel x.info.dtypeEncoded x.info.alignUnit alloc).memory
  else m.memcpy x.tensor.data x.encodedPtr x.encodedSize

end DecodeState.Output

/-- An output of `n` elements of `c` channels, `e` bytes each. An aligned one is encoded in rows of
    whole units, and decoding it gives as many bytes as the tensor has. -/
structure ChannelLast (x : Output) (c n e : ℕ) (alloc : Allocs) : Prop where
  type : x.tensor.memoryType ≠ .argmax
  transpose : x.info.transpose = .channelLastToFirst
  channel : x.info.dim? 0 = some (c : ℤ)
  outer : x.info.outerSize = n
  element : dataSizeRmapinfo x.info.dtypeEncoded = some e
  size : x.decoded.size = n * c * e
  channelPos : 0 < c
  outerPos : 0 < n
  rows : x.info.layout = .aligned → ∃ col unit : ℕ, x.info.scale c = col ∧
    x.info.scale x.info.alignUnit = unit ∧ PaddedSizes x.encodedSize col unit ∧
    x.encodedSize / alignUp col unit * col = n * c * e
  buffers : Buffers x.encoded x.decoded alloc.encoder
  small : x.tensor.data = x.encodedPtr → x.encodedSize < 2 ^ 31
  buffer : alloc.transpose = true

/-- The tensor is the transposition of the decoded one. -/
def DecodedTransposed (x : Output) (c n e : ℕ) (response : Response) (alloc : Allocs)
    (s : DecodeState) (i : ℕ) : Prop :=
  ∃ s' tensor, s.decodeOutput i response alloc = some s' ∧ s'.request.outputs[i]? = some tensor ∧
    ∀ p < n * c * e, s'.memory (tensor.data + p) =
      transpose n c e (bytesAt (x.decodedMemory c s.memory alloc.encoder) x.decoded) p

/-- The output is the only one of the request, whose model is a normal one. -/
structure OnlyOutput (r : OutputRequest) (x : Output) : Prop where
  modelType : r.modelType = .normal
  one : r.outputs.length = 1
  output : ∀ m, HasOutput ⟨m, r, []⟩ 0 x

/-- `DecodeOutputs` makes the tensor the transposition of the decoded one. -/
def OutputDecodedTransposed (x : Output) (c n e : ℕ) (response : Response) (alloc : ℕ → Allocs)
    (m : ProcessMemory) (r : OutputRequest) : Prop :=
  ∃ s' tensor, decodeOutputs false alloc response m r = some s' ∧
    s'.request.outputs[0]? = some tensor ∧
    ∀ p < n * c * e, s'.memory (tensor.data + p) =
      transpose n c e (bytesAt (x.decodedMemory c m (alloc 0).encoder) x.decoded) p

/-- One output goes through the loop once. -/
theorem decodeOutputs_only {alloc : ℕ → Allocs} {m : ProcessMemory} {r : OutputRequest}
    (h : OnlyOutput r x) : decodeOutputs false alloc response m r =
      DecodeState.decodeOutput ⟨m, r, []⟩ 0 response (alloc 0) := by
  rw [decodeOutputs]
  simp only [h.modelType, Bool.false_eq_true, if_false, h.one, decodeLoop, List.range_one,
    List.foldlM_cons, List.foldlM_nil, Option.pure_def, Option.bind_eq_bind, Option.bind_fun_some]

theorem outputDecodedTransposed_iff {alloc : ℕ → Allocs} {m : ProcessMemory} {r : OutputRequest}
    (h : OnlyOutput r x) : OutputDecodedTransposed x c n e response alloc m r ↔
      DecodedTransposed x c n e response (alloc 0) ⟨m, r, []⟩ 0 := by
  rw [OutputDecodedTransposed, DecodedTransposed, decodeOutputs_only h]

theorem decodeAligned_eq (m : ProcessMemory) (input output : Bytes) (channel : ℤ) (info : TensorInfo)
    (alloc : Bool) : decodeAligned m input output channel info.dtypeEncoded info.alignUnit alloc =
      decode m input output (info.scale channel) (info.scale info.alignUnit) alloc := by
  rw [decodeAligned, TensorInfo.scale, TensorInfo.scale]
  split_ifs <;> rfl

/-- A byte of the copied tensor. -/
theorem copied_byte (x : Output) (m : ProcessMemory) (k : ℕ) :
    m.memcpy x.tensor.data x.encodedPtr x.encodedSize (x.tensor.data + k) =
      if k < x.encodedSize then m (x.encodedPtr + k) else m (x.tensor.data + k) := by
  simp only [ProcessMemory.memcpy, ProcessMemory.copyIn, Nat.le_add_right, true_and,
    Nat.add_lt_add_iff_left, Nat.add_sub_cancel_left]

namespace ChannelLast
variable (h : ChannelLast x c n e alloc)

include h

theorem decodeOutput_eq (hs : HasOutput s i x) :
    s.decodeOutput i response alloc = s.decodeTensor i x alloc := by
  have hlt : ¬ s.request.encodedOutputPtrs.length ≤ i :=
    not_le.mpr (List.getElem?_eq_some_iff.mp hs.ptr).1
  have hsource : x.encodedPtr ≠ 0 := h.buffers.source
  have hdestination : x.tensor.data ≠ 0 := h.buffers.destination
  rw [DecodeState.decodeOutput]
  simp only [hs.tensor, hs.info, hs.size, hs.ptr, Option.bind_eq_bind, Option.bind_some,
    if_neg h.type, if_neg hlt, if_neg hsource, if_neg hdestination]

/-- An aligned output is decoded, and transposed back into the encoded buffer. -/
theorem aligned (hlayout : x.info.layout = .aligned) (hs : HasOutput s i x) :
    DecodedTransposed x c n e response alloc s i := by
  obtain ⟨col, unit, hcol, hunit, hrows, hcount⟩ := h.rows hlayout
  have hroom : x.encoded.size / alignUp col unit * col ≤ x.decoded.size := (hcount.trans h.size.symm).le
  obtain ⟨m₁, hdecode, hdecoded⟩ := decode_writes (m := s.memory) hrows h.buffers
    (fun hsame => h.small hsame.symm) hroom
  have he := (dataSize_pos h.element).1
  have hle : n * c * e ≤ x.encodedSize := by
    have hmul : x.encodedSize / alignUp col unit * col ≤
        x.encodedSize / alignUp col unit * alignUp col unit :=
      Nat.mul_le_mul_left _ (le_alignUp col hrows.unitPos)
    rw [Nat.div_mul_cancel hrows.whole] at hmul
    omega
  have htotal := hrows.total
  have hwrites : Writes m₁ (bidirectionalTranspose m₁ x.tensor.data x.encodedPtr n c e
      alloc.transpose) x.encodedPtr (n * c * e)
      (Blocks.transpose n c e fun k => m₁ (x.tensor.data + k)) :=
    bidirectionalTranspose_writes h.outerPos h.channelPos he (by omega) h.buffers.destination
      h.buffers.source (fun _ => h.buffer) fun hne => by
        have hapart := h.buffers.apart hne.symm
        have hsize := h.size
        rw [Apart, Output.encoded, Output.decoded] at *
        simp only at *
        omega
  have hmemory : decodeAligned s.memory x.encoded x.decoded c x.info.dtypeEncoded x.info.alignUnit
      alloc.encoder = ⟨m₁, ⟨x.encoded.size / alignUp col unit * col, x.decoded.data⟩, 0⟩ := by
    rw [decodeAligned_eq, hcol, hunit, hdecode]
  have hlt : i < s.request.outputs.length := (List.getElem?_eq_some_iff.mp hs.tensor).1
  refine ⟨DecodeState.setOutput { s.decoderDone ⟨m₁, ⟨x.encoded.size / alignUp col unit * col,
    x.decoded.data⟩, 0⟩ with
    memory := bidirectionalTranspose m₁ x.tensor.data x.encodedPtr n c e alloc.transpose } i
    { x.tensor with data := x.encodedPtr }, { x.tensor with data := x.encodedPtr }, ?_, ?_,
    fun p hp => ?_⟩
  · rw [h.decodeOutput_eq hs, DecodeState.decodeTensor, hlayout, h.transpose]
    simp only [DecodeState.alignedTransposed, h.channel, h.element, Option.bind_eq_bind,
      Option.bind_some, hmemory, h.outer]
    rfl
  · exact List.getElem?_set_self hlt
  · refine (hwrites.bytes p hp).trans ?_
    rw [Output.decodedMemory, if_pos hlayout, hmemory]
    rfl

/-- Any other output is copied, and that is all. -/
theorem copied (hlayout : x.info.layout ≠ .aligned) (hs : HasOutput s i x) :
    s.decodeOutput i response alloc = some (s.plainCopy x) := by
  rw [h.decodeOutput_eq hs, DecodeState.decodeTensor]
  generalize hl : x.info.layout = layout at hlayout ⊢
  rw [h.transpose]
  cases layout with
  | aligned => exact absurd rfl hlayout
  | none | preFormatter | preIm2col | formatted | ppuYolo | ppuFd | ppuPose => rfl

/-- Where neither channels nor elements are a single one, a copy is not a transposition. -/
theorem copied_wrong (hlayout : x.info.layout ≠ .aligned) (hn : n ≠ 1) (hc : c ≠ 1)
    {r : OutputRequest} (hr : ∀ m, HasOutput ⟨m, r, []⟩ 0 x)
    (hall : ∀ m, DecodedTransposed x c n e response alloc ⟨m, r, []⟩ 0) : False := by
  have hcpos := h.channelPos
  have hnpos := h.outerPos
  have he := (dataSize_pos h.element).1
  -- The second element of the copy is 1, the element that belongs there is not.
  obtain ⟨w, hw⟩ : ∃ w, w = if e < x.encodedSize then x.encodedPtr + e else x.tensor.data + e := ⟨_, rfl⟩
  obtain ⟨s, hmemory, hs, htransposed⟩ : ∃ s : DecodeState,
      s.memory = (fun a => if a = w then 1 else 0) ∧ HasOutput s 0 x ∧
        DecodedTransposed x c n e response alloc s 0 := ⟨⟨_, r, []⟩, rfl, hr _, hall _⟩
  obtain ⟨s', tensor, hrun, htensor, hbytes⟩ := htransposed
  rw [h.copied hlayout hs, Option.some.injEq] at hrun
  subst hrun
  obtain rfl : x.tensor = tensor := Option.some.inj (hs.tensor.symm.trans htensor)
  have hfar : 2 * e ≤ c * e := Nat.mul_le_mul_right _ (by omega)
  have hinside : c * e + c * e ≤ n * c * e := by
    have hle : 2 * (c * e) ≤ n * (c * e) := Nat.mul_le_mul_right _ (by omega)
    rw [Nat.mul_assoc]
    omega
  have hbyte := hbytes e (by omega)
  have hsecond : Blocks.transpose n c e (bytesAt (x.decodedMemory c s.memory alloc.encoder) x.decoded)
      ((0 * n + 1) * e + 0) = bytesAt (x.decodedMemory c s.memory alloc.encoder) x.decoded
        ((1 * c + 0) * e + 0) := transpose_at _ (by omega) he
  rw [Nat.zero_mul, Nat.zero_add, Nat.one_mul, Nat.add_zero, Nat.one_mul, Nat.add_zero, Nat.add_zero]
    at hsecond
  rw [hsecond, bytesAt, Output.decodedMemory, if_neg hlayout] at hbyte
  have hbyte := (copied_byte x s.memory e).symm.trans (hbyte.trans (copied_byte x s.memory (c * e)))
  have hplace : (if c * e < x.encodedSize then x.encodedPtr + c * e else x.tensor.data + c * e) ≠ w := by
    have hsize := h.size
    rw [hw]
    by_cases hsame : x.encodedPtr = x.tensor.data
    · rw [hsame]
      split_ifs <;> omega
    · have hapart := h.buffers.apart hsame
      rw [Apart, Output.encoded, Output.decoded] at *
      simp only at *
      split_ifs <;> omega
  have hone : (if e < x.encodedSize then s.memory (x.encodedPtr + e)
      else s.memory (x.tensor.data + e)) = 1 := by
    rw [hmemory, hw]
    split_ifs <;> simp
  have hzero : (if c * e < x.encodedSize then s.memory (x.encodedPtr + c * e)
      else s.memory (x.tensor.data + c * e)) = 0 := by
    rw [hmemory]
    split_ifs with hin
    · exact if_neg (by simpa only [if_pos hin] using hplace)
    · exact if_neg (by simpa only [if_neg hin] using hplace)
  rw [hone, hzero] at hbyte
  cases hbyte

/-- The tensor is transposed if it is aligned, or there is nothing to transpose. -/
theorem decodedTransposed (hcond : x.info.layout = .aligned ∨ n = 1 ∨ c = 1)
    (hs : HasOutput s i x) : DecodedTransposed x c n e response alloc s i := by
  by_cases hlayout : x.info.layout = .aligned
  · exact h.aligned hlayout hs
  · have hone := hcond.resolve_left hlayout
    refine ⟨_, x.tensor, h.copied hlayout hs, hs.tensor, fun p hp => ?_⟩
    rw [Output.decodedMemory, if_neg hlayout]
    have hsame : bytesAt (s.memory.memcpy x.tensor.data x.encodedPtr x.encodedSize) x.decoded p =
        Blocks.transpose n c e
          (bytesAt (s.memory.memcpy x.tensor.data x.encodedPtr x.encodedSize) x.decoded) p := by
      rcases hone with rfl | rfl
      · exact (transpose_row _ p).symm
      · exact (transpose_col _ (by rwa [Nat.mul_one] at hp)).symm
    exact hsame

/-- And only then, whatever the request. -/
theorem of_decodedTransposed {r : OutputRequest} (hr : ∀ m, HasOutput ⟨m, r, []⟩ 0 x)
    (hall : ∀ m, DecodedTransposed x c n e response alloc ⟨m, r, []⟩ 0) :
    x.info.layout = .aligned ∨ n = 1 ∨ c = 1 := by
  by_contra hnot
  simp only [not_or] at hnot
  obtain ⟨hlayout, hn, hc⟩ := hnot
  exact h.copied_wrong hlayout hn hc hr hall

end ChannelLast

end

/-- A request with that input only. -/
def EncodeState.Input.request (x : Input) : RequestData where
  inputs := [x.tensor]
  outputs := 1
  encodedInputsPtr := x.encodedPtr
  encodedInputPtrs := [x.encodedPtr]
  npuInputTensorInfos := [x.info]
  encodedInputSizes := [x.encodedSize]

/-- A request of a normal model with that output only. -/
def DecodeState.Output.request (x : Output) : OutputRequest where
  modelType := .normal
  isArgMax := false
  outputs := [x.tensor]
  encodedOutputPtrs := [x.encodedPtr]
  npuOutputTensorInfos := [x.info]
  encodedOutputSizes := [x.encodedSize]

theorem onlyInput_request {x : Input} (hptr : x.encodedPtr ≠ 0) : OnlyInput x.request x :=
  ⟨rfl, by simp [RequestData.input?, Input.request, hptr]⟩

theorem onlyOutput_request (x : Output) : OnlyOutput x.request x :=
  ⟨rfl, rfl, fun _ => ⟨rfl, rfl, rfl, rfl⟩⟩

/-- Inputs whose channels come first are transposed before they are grouped or padded, and outputs
    after they have been decoded, exactly if they are aligned, or the order does not matter: for an
    input in a buffer of its own, the shape is special, and for an output, there is nothing to
    transpose. So it is with every turn of the two loops, and with `EncodeInputs` and `DecodeOutputs`
    of a request that has one input or one output. -/
theorem channels_first_iff {x : Input} {c n e col unit : ℕ} {alloc : ℕ → Allocs} {y : Output}
    {c' n' e' : ℕ} {response : Response} {alloc' : ℕ → Allocs}
    (hx : ChannelFirst x c n e col unit (alloc 0)) (hy : ChannelLast y c' n' e' (alloc' 0)) :
    (((∀ s i, TransposedFirst x c n e (alloc 0) s i) ↔
        x.info.layout = .aligned ∨ x.tensor.data ≠ x.encodedPtr ∧ Commutes c n e unit) ∧
      ((∀ m r, OnlyInput r x → InputTransposedFirst x c n e alloc m r) ↔
        x.info.layout = .aligned ∨ x.tensor.data ≠ x.encodedPtr ∧ Commutes c n e unit)) ∧
    ((∀ s i, HasOutput s i y → DecodedTransposed y c' n' e' response (alloc' 0) s i) ↔
        y.info.layout = .aligned ∨ n' = 1 ∨ c' = 1) ∧
      ((∀ m r, OnlyOutput r y → OutputDecodedTransposed y c' n' e' response alloc' m r) ↔
        y.info.layout = .aligned ∨ n' = 1 ∨ c' = 1) := by
  have hdata : x.tensor.data ≠ 0 := hx.buffers.source
  have honly := onlyInput_request hx.buffers.destination
  have houtput := onlyOutput_request y
  refine ⟨⟨⟨fun hall => ?_, fun hcond s i => hx.transposedFirst hcond⟩, fun hall => ?_,
    fun hcond m r hr => ?_⟩, ⟨fun hall => ?_, fun hcond s i hs => hy.decodedTransposed hcond hs⟩,
    fun hall => ?_, fun hcond m r hr => ?_⟩
  · exact hx.of_transposedFirst (r := x.request) fun m => hall _ 0
  · exact hx.of_transposedFirst fun m => (inputTransposedFirst_iff honly hdata).mp (hall m _ honly)
  · exact (inputTransposedFirst_iff hr hdata).mpr (hx.transposedFirst hcond)
  · exact hy.of_decodedTransposed houtput.output fun m => hall _ 0 (houtput.output m)
  · exact hy.of_decodedTransposed houtput.output fun m =>
      (outputDecodedTransposed_iff houtput).mp (hall m _ houtput)
  · exact (outputDecodedTransposed_iff hr).mpr (hy.decodedTransposed hcond (hr.output m))

/-- Three channels of two floats, and two elements of three channels. -/
theorem channels_first_floats :
    let x : Input := ⟨⟨24, 4096⟩, ⟨.aligned, .channelFirstToLast, [2, 3], .float, 4⟩, 32, 8192⟩
    let y : Output := ⟨⟨.dram, .uint8, [2, 3], 1, 4096⟩,
      ⟨.aligned, .channelLastToFirst, [2, 3], .uint8, 4⟩, 8, 8192⟩
    (∀ m r, OnlyInput r x → InputTransposedFirst x 3 2 4 (fun _ => ⟨true, true⟩) m r) ∧
      ∀ m r, OnlyOutput r y →
        OutputDecodedTransposed y 3 2 1 ⟨0, 0⟩ (fun _ => ⟨true, true⟩) m r := by
  intro x y
  have hx : ChannelFirst x 3 2 4 12 16 ⟨true, true⟩ :=
    ⟨Or.inr rfl, rfl, rfl, rfl, rfl, rfl, rfl, rfl, by decide, by decide,
      ⟨by decide, by decide, by decide, by decide, by decide, by decide⟩, by decide,
      ⟨by decide, by decide, by decide, fun _ => rfl, fun _ => by decide⟩, rfl, rfl⟩
  have hy : ChannelLast y 3 2 1 ⟨true, true⟩ :=
    ⟨by decide, rfl, rfl, rfl, rfl, rfl, by decide, by decide,
      fun _ => ⟨3, 4, rfl, rfl, ⟨by decide, by decide, by decide, by decide, by decide, by decide⟩,
        by decide⟩, ⟨by decide, by decide, by decide, fun _ => rfl, fun _ => by decide⟩, by decide,
      rfl⟩
  have h := @channels_first_iff x 3 2 4 12 16 (fun _ => ⟨true, true⟩) y 3 2 1 ⟨0, 0⟩
    (fun _ => ⟨true, true⟩) hx hy
  exact ⟨h.1.2.mpr (Or.inl rfl), h.2.2.mpr (Or.inl rfl)⟩

/-- Two channels of two bytes in units of four: they are grouped first, and the padding of the first
    row takes part in the transposition. -/
theorem channels_first_grouped_first :
    let x : Input := ⟨⟨4, 4096⟩, ⟨.formatted, .channelFirstToLast, [2, 2], .uint8, 4⟩, 8, 8192⟩
    let m : ProcessMemory := fun a => UInt8.ofNat a
    ChannelFirst x 2 2 1 2 4 ⟨true, true⟩ ∧ OnlyInput x.request x ∧
      ¬ InputTransposedFirst x 2 2 1 (fun _ => ⟨true, true⟩) m x.request := by
  intro x m
  refine ⟨⟨Or.inl rfl, rfl, rfl, rfl, rfl, rfl, rfl, rfl, by decide, by decide,
    ⟨by decide, by decide, by decide, by decide, by decide, by decide⟩, by decide,
    ⟨by decide, by decide, by decide, fun _ => rfl, fun _ => by decide⟩, rfl, rfl⟩,
    ⟨rfl, rfl⟩, ?_⟩
  rintro ⟨s', hs', hout⟩
  have hcode : (encodeInputs false (fun _ => ⟨true, true⟩) none m x.request).1.memory 8193 = 0 := by
    decide
  have hright := (hout (fun a => transpose 2 2 1 (bytesAt m x.original) (a - 16384)) ⟨4, 16384⟩
    ⟨8, 8192⟩ rfl (fun k _ => by simp only [Nat.add_sub_cancel_left])
    ⟨by decide, by decide, by decide, fun _ => rfl, fun _ => by decide⟩ (by decide) (by decide)).2 1
    (by decide)
  rw [hs'] at hcode
  rw [show x.encodedPtr + 1 = 8193 from rfl, hcode] at hright
  revert hright
  decide

end DxRt.NpuFormatHandler
