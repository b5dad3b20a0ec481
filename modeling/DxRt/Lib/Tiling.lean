import Mathlib

/-! Lists of segments that tile an interval of the natural numbers.

    A segment has a `start` and a `size`; `Tiles start size a l b` says that the segments of `l`,
    in order, are nonempty and cover `[a, b)` without a gap or an overlap. Cutting one segment in
    two, joining two neighbours and changing what a segment is labelled with are all instances of
    `tiles_append`. -/

namespace Tiling
variable {α : Type*} (start size : α → ℕ)

/-- The segments of the list, in order, cover `[a, b)` exactly. -/
def Tiles : ℕ → List α → ℕ → Prop
  | a, [], b => a = b
  | a, x :: l, b => start x = a ∧ 0 < size x ∧ Tiles (a + size x) l b

variable {start size} {a b : ℕ} {l r : List α} {x : α}

@[simp] theorem tiles_nil : Tiles start size a [] b ↔ a = b := Iff.rfl

@[simp] theorem tiles_cons :
    Tiles start size a (x :: l) b ↔
      start x = a ∧ 0 < size x ∧ Tiles start size (a + size x) l b := Iff.rfl

theorem tiles_append : ∀ {a : ℕ} {l : List α},
    Tiles start size a (l ++ r) b ↔ ∃ c, Tiles start size a l c ∧ Tiles start size c r b
  | a, [] => by simp
  | a, x :: l => by
    simp only [List.cons_append, tiles_cons, tiles_append (l := l)]
    constructor
    · rintro ⟨hs, hpos, c, hl, hr⟩; exact ⟨c, ⟨hs, hpos, hl⟩, hr⟩
    · rintro ⟨c, ⟨hs, hpos, hl⟩, hr⟩; exact ⟨hs, hpos, c, hl, hr⟩

/-- The covered length is the sum of the sizes. -/
theorem Tiles.sum_size : ∀ {a : ℕ} {l : List α}, Tiles start size a l b →
    a + (l.map size).sum = b
  | _, [], h => by simpa using h
  | a, x :: l, ⟨_, _, h⟩ => by
    have hrec := h.sum_size
    simp only [List.map_cons, List.sum_cons]; omega

theorem Tiles.le (h : Tiles start size a l b) : a ≤ b := by
  have := h.sum_size; omega

/-- Every segment of a tiling is nonempty and lies inside the tiled interval. -/
theorem Tiles.bounds : ∀ {a : ℕ} {l : List α}, Tiles start size a l b → ∀ x ∈ l,
    a ≤ start x ∧ 0 < size x ∧ start x + size x ≤ b
  | a, y :: l, ⟨hs, hpos, h⟩, x, hx => by
    rcases List.mem_cons.mp hx with rfl | hx
    · exact ⟨hs.ge, hpos, hs ▸ h.le⟩
    · obtain ⟨h1, h2, h3⟩ := h.bounds x hx
      exact ⟨by omega, h2, h3⟩

/-- Two segments of a tiling do not overlap: the earlier one ends before the later one starts. -/
theorem Tiles.pairwise : ∀ {a : ℕ} {l : List α}, Tiles start size a l b →
    l.Pairwise (fun x y => start x + size x ≤ start y)
  | _, [], _ => List.Pairwise.nil
  | _, _ :: _, ⟨hs, _, h⟩ =>
    List.pairwise_cons.mpr ⟨fun y hy => hs ▸ (h.bounds y hy).1, h.pairwise⟩

end Tiling
