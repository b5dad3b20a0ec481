import Mathlib

/-! Computations that read ranges of a memory and may throw.

    A computation is what it returns and which ranges it has read, in order; after an exception
    nothing is read. Whether all of them lie inside a memory of a given size is decided range by
    range along the computation. -/

/-- The ranges read, as first index and length, and the result; `none` is an exception. -/
structure Reads (α : Type*) where
  ranges : List (ℤ × ℤ)
  result : Option α

namespace Reads
universe u
variable {α β : Type u} {size : ℤ}

def throw : Reads α := ⟨[], none⟩

/-- No memory is read. -/
def lift (o : Option α) : Reads α := ⟨[], o⟩

/-- The range from `start` on is read. -/
def range (start length : ℤ) (a : α) : Reads α := ⟨[(start, length)], some a⟩

def bind (x : Reads α) (f : α → Reads β) : Reads β :=
  match x.result with
  | none => ⟨x.ranges, none⟩
  | some a => ⟨x.ranges ++ (f a).ranges, (f a).result⟩

instance : Monad Reads where
  pure a := lift (some a)
  bind := bind

/-- Every range lies in `[0, size)`. -/
def Inside (size : ℤ) (x : Reads α) : Prop := ∀ r ∈ x.ranges, 0 ≤ r.1 ∧ r.1 + r.2 ≤ size

@[simp] theorem inside_throw : (throw : Reads α).Inside size := by
  intro r hr
  exact absurd hr List.not_mem_nil

@[simp] theorem inside_lift (o : Option α) : (lift o).Inside size := by
  intro r hr
  exact absurd hr List.not_mem_nil

@[simp] theorem inside_pure (a : α) : (pure a : Reads α).Inside size := inside_lift (some a)

@[simp] theorem inside_range (start length : ℤ) (a : α) :
    (range start length a).Inside size ↔ 0 ≤ start ∧ start + length ≤ size := by
  simp [Inside, range]

/-- What comes after a computation counts only if that returns. -/
theorem inside_bind (x : Reads α) (f : α → Reads β) :
    (x >>= f).Inside size ↔ x.Inside size ∧ ∀ a, x.result = some a → (f a).Inside size := by
  change (x.bind f).Inside size ↔ _
  rw [bind]
  cases h : x.result with
  | none => simp [Inside]
  | some a =>
    simp only [Inside, List.mem_append, Option.some.injEq]
    constructor
    · intro hall
      exact ⟨fun r hr => hall r (Or.inl hr), fun b hb r hr => hall r (Or.inr (hb ▸ hr))⟩
    · rintro ⟨hx, hf⟩ r (hr | hr)
      · exact hx r hr
      · exact hf a rfl r hr

@[simp] theorem result_lift (o : Option α) : (lift o).result = o := rfl

@[simp] theorem result_pure (a : α) : (pure a : Reads α).result = some a := rfl

@[simp] theorem result_range (start length : ℤ) (a : α) :
    (range start length a).result = some a := rfl

theorem result_bind (x : Reads α) (f : α → Reads β) :
    (x >>= f).result = x.result.bind fun a => (f a).result := by
  change (x.bind f).result = _
  rw [bind]
  cases x.result <;> rfl

/-! ### A block of memory -/

/-- The `length` items from `start` on. -/
def block {β : Type u} (mem : ℤ → β) (start length : ℤ) : List β :=
  (List.range length.toNat).map fun i => mem (start + i)

/-- A block copied into a container: it throws when there is no container of that size. -/
def copy (mem : ℤ → β) (allocates : ℤ → Bool) (start length : ℤ) : Reads (List β) :=
  if length < 0 ∨ allocates length = false then throw
  else if length = 0 then pure []
  else range start length (block mem start length)

theorem inside_copy (mem : ℤ → β) (allocates : ℤ → Bool) (start length : ℤ) :
    (copy mem allocates start length).Inside size ↔
      length ≤ 0 ∨ allocates length = false ∨ 0 ≤ start ∧ start + length ≤ size := by
  rw [copy]
  split_ifs with hthrow hempty
  · refine iff_of_true inside_throw ?_
    exact hthrow.imp le_of_lt Or.inl
  · exact iff_of_true (inside_pure _) (Or.inl hempty.le)
  · push Not at hthrow
    rw [inside_range, or_iff_right (by omega), or_iff_right hthrow.2]

theorem result_copy (mem : ℤ → β) (allocates : ℤ → Bool) (start length : ℤ) :
    (copy mem allocates start length).result =
      if length < 0 ∨ allocates length = false then none
      else some (block mem start length) := by
  rw [copy]
  split_ifs with hthrow hempty
  · rfl
  · simp [block, hempty]
  · rfl

/-! ### One after another -/

/-- `f` on every element, in order. -/
def each (f : α → Reads β) : List α → Reads (List β)
  | [] => pure []
  | a :: l => do
    let b ← f a
    let bs ← each f l
    pure (b :: bs)

/-- An element has to fit if everything before it is loaded. -/
def Fitting (fits loads : α → Prop) : List α → Prop
  | [] => True
  | a :: l => fits a ∧ (loads a → Fitting fits loads l)

theorem fitting_append {fits loads : α → Prop} (l l' : List α) :
    Fitting fits loads (l ++ l') ↔
      Fitting fits loads l ∧ ((∀ a ∈ l, loads a) → Fitting fits loads l') := by
  induction l with
  | nil => simp [Fitting]
  | cons a l ih =>
    simp only [List.cons_append, Fitting, ih, List.forall_mem_cons]
    constructor
    · rintro ⟨ha, hrest⟩
      exact ⟨⟨ha, fun hload => (hrest hload).1⟩, fun hall => (hrest hall.1).2 hall.2⟩
    · rintro ⟨⟨ha, hl⟩, hrest⟩
      exact ⟨ha, fun hload => ⟨hl hload, fun hall => hrest ⟨hload, hall⟩⟩⟩

variable {f : α → Reads β} {fits loads : α → Prop}

theorem isSome_each (hloads : ∀ a, (f a).result.isSome ↔ loads a) (l : List α) :
    (each f l).result.isSome ↔ ∀ a ∈ l, loads a := by
  induction l with
  | nil => simp [each]
  | cons a l ih =>
    simp only [each, result_bind, result_pure, List.forall_mem_cons]
    rw [← hloads a, ← ih]
    cases (f a).result <;> cases (each f l).result <;> simp

theorem result_each {g : α → β} (hresult : ∀ a b, (f a).result = some b → b = g a) {l : List α}
    {bs : List β} (h : (each f l).result = some bs) : bs = l.map g := by
  induction l generalizing bs with
  | nil => exact (Option.some.inj h).symm
  | cons a l ih =>
    simp only [each, result_bind, result_pure, Option.bind_eq_some_iff, Option.some.injEq] at h
    obtain ⟨b, hb, bs', hbs, rfl⟩ := h
    rw [List.map_cons, hresult a b hb, ih hbs]

theorem inside_each (hfits : ∀ a, (f a).Inside size ↔ fits a)
    (hloads : ∀ a, (f a).result.isSome ↔ loads a) (l : List α) :
    (each f l).Inside size ↔ Fitting fits loads l := by
  induction l with
  | nil => simp [each, Fitting]
  | cons a l ih =>
    simp only [each, inside_bind, inside_pure, implies_true, and_true, ih, Fitting, hfits a,
      ← hloads a, Option.isSome_iff_exists, forall_exists_index]

end Reads
