import Mathlib

/-! Ranges that follow one another, and the running offsets that place them.

    `Abut a l b` says that the ranges of `l` start at `a`, each where the one before ends, and end at
    `b`; a range may be empty. Such ranges are disjoint and cover `[a, b)`. A loop that keeps a
    running offset in machine words places ranges so as long as the offset does not wrap. -/

namespace Placement

/-- The bytes from `start` on. -/
structure Range where
  start : ℕ
  size : ℕ
  deriving DecidableEq

def Range.stop (r : Range) : ℕ := r.start + r.size

def Range.bytes (r : Range) : Set ℕ := Set.Ico r.start r.stop

/-- The ranges follow one another from `a` to `b`. -/
def Abut : ℕ → List Range → ℕ → Prop
  | a, [], b => a = b
  | a, r :: l, b => r.start = a ∧ Abut r.stop l b

variable {a b : ℕ} {l : List Range} {r : Range}

@[simp] theorem abut_nil : Abut a [] b ↔ a = b := Iff.rfl

@[simp] theorem abut_cons : Abut a (r :: l) b ↔ r.start = a ∧ Abut r.stop l b := Iff.rfl

theorem Abut.le (h : Abut a l b) : a ≤ b := by
  induction l generalizing a with
  | nil => exact h.le
  | cons r l ih =>
    obtain ⟨rfl, hl⟩ := h
    exact le_trans (Nat.le_add_right _ _) (ih hl)

theorem Abut.sum_size (h : Abut a l b) : a + (l.map Range.size).sum = b := by
  induction l generalizing a with
  | nil => simpa using h
  | cons r l ih =>
    obtain ⟨rfl, hl⟩ := h
    rw [List.map_cons, List.sum_cons, ← Nat.add_assoc]
    exact ih hl

/-- A byte is in one of the ranges iff it is between the ends. -/
theorem Abut.mem_bytes (h : Abut a l b) {x : ℕ} : (∃ r ∈ l, x ∈ r.bytes) ↔ a ≤ x ∧ x < b := by
  induction l generalizing a with
  | nil =>
    obtain rfl : a = b := h
    simp
  | cons r l ih =>
    obtain ⟨rfl, hl⟩ := h
    have hle : r.start ≤ r.stop := Nat.le_add_right _ _
    have hstop := hl.le
    rw [List.exists_mem_cons_iff, ih hl, Range.bytes, Set.mem_Ico]
    omega

theorem Abut.iUnion_bytes (h : Abut a l b) : ⋃ r ∈ l, r.bytes = Set.Ico a b := by
  ext x
  rw [Set.mem_Ico, ← h.mem_bytes]
  simp

theorem Abut.pairwise_disjoint (h : Abut a l b) :
    l.Pairwise fun r s => Disjoint r.bytes s.bytes := by
  induction l generalizing a with
  | nil => exact List.Pairwise.nil
  | cons r l ih =>
    obtain ⟨-, hl⟩ := h
    refine List.pairwise_cons.mpr ⟨fun s hs => ?_, ih hl⟩
    rw [Set.disjoint_left]
    intro x hr hx
    have hafter := (hl.mem_bytes.mp ⟨s, hs, hx⟩).1
    exact absurd hr.2 (Nat.not_lt.mpr hafter)

/-! ### Running offsets -/

variable {wrap : ℕ}

/-- The running offset before each of the sizes, from `a` on. -/
def offsets (wrap : ℕ) : ℕ → List ℕ → List ℕ
  | _, [] => []
  | a, n :: sizes => a :: offsets wrap ((a + n) % wrap) sizes

/-- The ranges of the sizes at their running offsets. -/
def place (wrap a : ℕ) (sizes : List ℕ) : List Range :=
  List.zipWith Range.mk (offsets wrap a sizes) sizes

@[simp] theorem place_cons (n : ℕ) (sizes : List ℕ) :
    place wrap a (n :: sizes) = ⟨a, n⟩ :: place wrap ((a + n) % wrap) sizes := rfl

theorem map_size_place (sizes : List ℕ) : (place wrap a sizes).map Range.size = sizes := by
  induction sizes generalizing a with
  | nil => rfl
  | cons n sizes ih => rw [place_cons, List.map_cons, ih]

/-- As long as the running offset does not wrap, the ranges follow one another. -/
theorem abut_place {sizes : List ℕ} (h : a + sizes.sum < wrap) :
    Abut a (place wrap a sizes) (a + sizes.sum) := by
  induction sizes generalizing a with
  | nil => rfl
  | cons n sizes ih =>
    rw [List.sum_cons, ← Nat.add_assoc] at h ⊢
    have hmod : (a + n) % wrap = a + n := Nat.mod_eq_of_lt (by omega)
    rw [place_cons, hmod]
    exact ⟨rfl, ih h⟩

/-- The end of the placed ranges, should they follow one another. -/
theorem end_of_abut_place {sizes : List ℕ} (h : Abut a (place wrap a sizes) b) :
    b = a + sizes.sum := by
  rw [← h.sum_size, map_size_place]

/-- The end of the running offset. -/
theorem foldl_add_mod (sizes : List ℕ) (ha : a < wrap) :
    sizes.foldl (fun total n => (total + n) % wrap) a = (a + sizes.sum) % wrap := by
  induction sizes generalizing a with
  | nil => simpa using (Nat.mod_eq_of_lt ha).symm
  | cons n sizes ih =>
    rw [List.foldl_cons, ih (Nat.mod_lt _ (by omega)), List.sum_cons, Nat.mod_add_mod, Nat.add_assoc]

variable {κ : Type*} [DecidableEq κ]

/-- One key more of a loop that records the running offset of each key. -/
def record (wrap : ℕ) (size : κ → ℕ) (state : (κ → Option ℕ) × ℕ) (key : κ) :
    (κ → Option ℕ) × ℕ :=
  (Function.update state.1 key (some state.2), (state.2 + size key) % wrap)

theorem record_of_not_mem {size : κ → ℕ} {key : κ} {keys : List κ} (h : key ∉ keys)
    (state : (κ → Option ℕ) × ℕ) :
    (keys.foldl (record wrap size) state).1 key = state.1 key := by
  induction keys generalizing state with
  | nil => rfl
  | cons k keys ih =>
    obtain ⟨hne, hmem⟩ := not_or.mp (mt List.mem_cons.mpr h)
    rw [List.foldl_cons, ih hmem]
    exact Function.update_of_ne hne _ _

/-- The recorded offsets of distinct keys are their running offsets. -/
theorem map_record {size : κ → ℕ} {keys : List κ} (h : keys.Nodup) (state : (κ → Option ℕ) × ℕ) :
    keys.map (keys.foldl (record wrap size) state).1 =
      (offsets wrap state.2 (keys.map size)).map some := by
  induction keys generalizing state with
  | nil => rfl
  | cons k keys ih =>
    obtain ⟨hk, hkeys⟩ := List.nodup_cons.mp h
    have hrest := ih hkeys (record wrap size state k)
    simp only [List.map_cons, List.foldl_cons, offsets]
    rw [record_of_not_mem hk, hrest]
    simp [record]

end Placement
