import DxRt.Memory.Invariant

/-! The blocks determine the pool.

    A well-formed pool is merged everywhere, so between two busy nodes there is exactly one free
    node or none, and its bounds are the bounds of its neighbours. Two pools of one size that hold
    the same blocks are therefore the same node map with the same `_used_size`, whatever was
    allocated and freed before. -/

namespace DxRt.Memory
open Tiling

/-- A merged list of nodes that tiles `[a, b)`. -/
structure Normal (a : ℕ) (l : List PoolEntry) (b : ℕ) : Prop where
  keyed : ∀ e ∈ l, e.2.addr = e.1
  known : ∀ e ∈ l, e.2.status ≠ .permanent
  tiles : Tiles Prod.fst (fun e : PoolEntry => e.2.size) a l b
  merged : l.IsChain NotBothFree

theorem PoolInv.normal {m : Memory} (h : PoolInv m) : Normal 0 m.pool.entries m.size where
  keyed e he := (h.layout.node e he).keyed
  known e he := (h.layout.node e he).known
  tiles := h.layout.tiles
  merged := h.merged

variable {a b : ℕ} {e e' : PoolEntry} {l l' : List PoolEntry}

theorem Normal.tail (h : Normal a (e :: l) b) : Normal (a + e.2.size) l b where
  keyed x hx := h.keyed x (List.mem_cons_of_mem _ hx)
  known x hx := h.known x (List.mem_cons_of_mem _ hx)
  tiles := h.tiles.2.2
  merged := h.merged.tail

/-- A node is known by its bounds and by whether it is free. -/
theorem Normal.head_eq (h : Normal a (e :: l) b) (h' : Normal a (e' :: l') b)
    (hsize : e.2.size = e'.2.size) (hfree : IsFree e ↔ IsFree e') : e = e' := by
  have hkey := h.keyed e (List.mem_cons_self ..)
  have hkey' := h'.keyed e' (List.mem_cons_self ..)
  have hknown := h.known e (List.mem_cons_self ..)
  have hknown' := h'.known e' (List.mem_cons_self ..)
  have hstart := h.tiles.1.trans h'.tiles.1.symm
  obtain ⟨k, addr, size, status⟩ := e
  obtain ⟨k', addr', size', status'⟩ := e'
  simp only [IsFree] at *
  subst hkey hkey' hsize hstart
  cases status <;> cases status' <;> simp_all

/-- The busy nodes of a tiling start inside it. -/
theorem Normal.start_ge (h : Normal a l b) {x : ℕ × ℕ} (hx : x ∈ busyBlocks l) : a ≤ x.1 := by
  obtain ⟨start, size⟩ := x
  obtain ⟨node, hmem, _⟩ := mem_busyBlocks.mp hx
  exact (h.tiles.bounds _ hmem).1

/-- Behind a free node comes the end or a busy node, which tells where the free node ends. -/
theorem Normal.free_end (h : Normal a (e :: l) b) (hfree : IsFree e) :
    a + e.2.size = ((busyBlocks l).map Prod.fst).headD b := by
  cases l with
  | nil => exact h.tiles.2.2
  | cons x l =>
    have hbusy : ¬ IsFree x := fun hx => (List.isChain_cons_cons.mp h.merged).1 ⟨hfree, hx⟩
    rw [busyBlocks_cons_busy hbusy]
    exact h.tail.tiles.1.symm

theorem Normal.eq : ∀ {a : ℕ} {l l' : List PoolEntry}, Normal a l b → Normal a l' b →
    busyBlocks l = busyBlocks l' → l = l'
  | a, [], [], _, _, _ => rfl
  | a, [], e' :: l', h, h', _ => by
    obtain ⟨_, hpos, hend⟩ := h'.tiles.bounds e' (List.mem_cons_self ..)
    have hab := h.tiles
    have hstart := h'.tiles.1
    simp only [tiles_nil] at hab
    omega
  | a, e :: l, [], h, h', _ => by
    obtain ⟨_, hpos, hend⟩ := h.tiles.bounds e (List.mem_cons_self ..)
    have hab := h'.tiles
    have hstart := h.tiles.1
    simp only [tiles_nil] at hab
    omega
  | a, e :: l, e' :: l', h, h', hbusy => by
    have hstart : e.1 = a := h.tiles.1
    have hstart' : e'.1 = a := h'.tiles.1
    have hpos : 0 < e.2.size := h.tiles.2.1
    have hpos' : 0 < e'.2.size := h'.tiles.2.1
    by_cases hfree : IsFree e
    · by_cases hfree' : IsFree e'
      · rw [busyBlocks_cons_free hfree, busyBlocks_cons_free hfree'] at hbusy
        have hend := h.free_end hfree
        have hend' := h'.free_end hfree'
        rw [hbusy] at hend
        have hsize : e.2.size = e'.2.size := by omega
        have htail := h'.tail
        rw [← hsize] at htail
        rw [h.head_eq h' hsize (iff_of_true hfree hfree'), h.tail.eq htail hbusy]
      · -- a busy node at `a` on the right only
        rw [busyBlocks_cons_free hfree, busyBlocks_cons_busy hfree'] at hbusy
        have hge := h.tail.start_ge (hbusy ▸ List.mem_cons_self ..)
        simp only at hge
        omega
    · by_cases hfree' : IsFree e'
      · rw [busyBlocks_cons_busy hfree, busyBlocks_cons_free hfree'] at hbusy
        have hge := h'.tail.start_ge (hbusy.symm ▸ List.mem_cons_self ..)
        simp only at hge
        omega
      · rw [busyBlocks_cons_busy hfree, busyBlocks_cons_busy hfree', List.cons.injEq,
          Prod.mk.injEq] at hbusy
        have htail := h'.tail
        rw [← hbusy.1.2] at htail
        rw [h.head_eq h' hbusy.1.2 (iff_of_false hfree hfree'), h.tail.eq htail hbusy.2]

/-- The blocks of a pool are listed in the order of their addresses. -/
theorem blocks_sorted (m : Memory) : m.blocks.Pairwise fun x y => x.1 < y.1 := by
  rw [blocks, busyBlocks]
  exact List.Pairwise.map _ (fun _ _ hlt => hlt) (m.pool.sorted.sublist List.filter_sublist)

/-- Two well-formed pools of one size that hold the same blocks are equal. -/
theorem eq_of_blocks {m m' : Memory} (h : PoolInv m) (h' : PoolInv m') (hsize : m.size = m'.size)
    (hperm : m.blocks.Perm m'.blocks) : m = m' := by
  have hblocks : m.blocks = m'.blocks :=
    hperm.eq_of_pairwise (fun x y _ _ hxy hyx => absurd hyx (Nat.lt_asymm hxy))
      (blocks_sorted m) (blocks_sorted m')
  have hpool : m.pool = m'.pool := SortedMap.ext (h.normal.eq (hsize ▸ h'.normal) hblocks)
  have hused : m.usedSize = m'.usedSize := by rw [h.used, h'.used, hblocks]
  obtain ⟨pool, size, usedSize⟩ := m
  obtain ⟨pool', size', usedSize'⟩ := m'
  simp only at hsize hpool hused
  rw [hpool, hsize, hused]

/-- Freeing a block that has just been cut out restores the pool. -/
theorem deallocate_carved {m m' : Memory} (h : PoolInv m) {a required : ℕ}
    (hc : Carved m a required m') : m'.deallocate a = m := by
  have hmem : (a, required) ∈ m'.blocks := hc.blocks.mem_iff.mpr (List.mem_cons_self ..)
  obtain ⟨hinv, hsize, hperm⟩ := deallocate_spec hc.inv hmem
  exact eq_of_blocks hinv h (hsize.trans hc.size_eq)
    ((List.perm_cons _).mp (hperm.symm.trans hc.blocks))

end DxRt.Memory
