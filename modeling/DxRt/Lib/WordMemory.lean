import Mathlib

/-! Memory that is addressed by 64-bit words.

    A pointer is a word, and pointer arithmetic wraps: a pointer may leave the memory on one side and
    come back from the other. Offsets below 2^64 from one base are told apart (`add_offset_inj`). A
    store changes the cells from its pointer on and no others; stores of several blocks that do not
    meet are described by `storeAll_at` and `storeAll_of_ne`. -/

namespace WordMemory

abbrev Address := BitVec 64

abbrev Memory (β : Type*) := Address → β

variable {β : Type*} {m : Memory β} {p a : Address} {n k l : ℕ} {v : ℕ → β}

theorem toNat_natCast (hk : k < 2 ^ 64) : (k : Address).toNat = k := by
  rw [BitVec.natCast_eq_ofNat, BitVec.toNat_ofNat, Nat.mod_eq_of_lt hk]

theorem add_offset_inj (hk : k < 2 ^ 64) (hl : l < 2 ^ 64) : p + k = p + l ↔ k = l := by
  constructor
  · intro h
    have hcast : (k : Address) = l := add_left_cancel h
    rw [← toNat_natCast hk, hcast, toNat_natCast hl]
  · rintro rfl
    rfl

theorem add_add_offset (p : Address) (k l : ℕ) : p + k + l = p + (k + l : ℕ) := by
  rw [Nat.cast_add, add_assoc]

/-- A pointer that is set back by `l` on the way. -/
theorem add_offset_add_sub (p : Address) (k l n : ℕ) : p + (k + l : ℕ) + (n - l) = p + (k + n : ℕ) := by
  rw [Nat.cast_add, Nat.cast_add, ← add_assoc, add_add_sub_cancel, add_assoc]

/-- `n` cells from `p` on become those of `v`. -/
def store (m : Memory β) (p : Address) (n : ℕ) (v : ℕ → β) : Memory β :=
  fun a => if (a - p).toNat < n then v (a - p).toNat else m a

theorem store_at (hl : l < n) (hn : n ≤ 2 ^ 64) : store m p n v (p + l) = v l := by
  have hsub : (p + (l : Address) - p).toNat = l := by
    rw [add_sub_cancel_left, toNat_natCast (by omega)]
  rw [store, hsub, if_pos hl]

theorem store_of_ne (h : ∀ l < n, a ≠ p + l) : store m p n v a = m a := by
  rw [store, if_neg]
  intro hlt
  refine h _ hlt ?_
  rw [BitVec.natCast_eq_ofNat, BitVec.ofNat_toNat, BitVec.setWidth_eq, add_sub_cancel]

/-! ### Several blocks -/

variable {ι : Type*} {dst : ι → Address} {w : ι → ℕ → β} {c : ι}

/-- One block after the other. -/
def storeAll (n : ℕ) (dst : ι → Address) (w : ι → ℕ → β) (blocks : List ι) (m : Memory β) :
    Memory β :=
  blocks.foldl (fun m c => store m (dst c) n (w c)) m

theorem storeAll_of_ne {blocks : List ι} (h : ∀ c ∈ blocks, ∀ l < n, a ≠ dst c + l) :
    storeAll n dst w blocks m a = m a := by
  induction blocks generalizing m with
  | nil => rfl
  | cons c blocks ih =>
    obtain ⟨hc, hblocks⟩ := List.forall_mem_cons.mp h
    rw [storeAll, List.foldl_cons]
    exact (ih hblocks).trans (store_of_ne hc)

/-- Blocks that do not meet keep what is stored in them. -/
theorem storeAll_at {blocks : List ι} (hc : c ∈ blocks) (hl : l < n) (hn : n ≤ 2 ^ 64)
    (hnodup : blocks.Nodup)
    (h : ∀ c ∈ blocks, ∀ d ∈ blocks, c ≠ d → ∀ k < n, ∀ l < n, dst c + k ≠ dst d + l) :
    storeAll n dst w blocks m (dst c + l) = w c l := by
  induction blocks generalizing m with
  | nil => exact absurd hc List.not_mem_nil
  | cons d blocks ih =>
    obtain ⟨hd, hblocks⟩ := List.nodup_cons.mp hnodup
    rw [storeAll, List.foldl_cons]
    rcases List.mem_cons.mp hc with rfl | hc
    · refine (storeAll_of_ne fun x hx k hk => ?_).trans (store_at hl hn)
      refine h c List.mem_cons_self x (List.mem_cons_of_mem _ hx) ?_ l hl k hk
      rintro rfl
      exact hd hx
    · exact ih hc hblocks fun x hx y hy => h x (List.mem_cons_of_mem _ hx) y (List.mem_cons_of_mem _ hy)

end WordMemory
