import DxRt.Lib.Run
import DxRt.Memory.Invariant

/-! Runs of the memory pool: any sequence of allocations from both ends, deallocations of live
    blocks and compactions, from the freshly constructed pool. -/

namespace DxRt.Memory
open Tiling

/-- A pool together with the blocks handed out and not yet freed: address and requested size. -/
structure PoolState where
  mem : Memory
  live : List (ℕ × ℕ)
  deriving DecidableEq

namespace PoolState

def init (size : ℕ) : PoolState := ⟨Memory.ofInfo size, []⟩

/-- The client side of an allocation of `n` bytes that returned `r.2`. -/
def record (s : PoolState) (n : ℕ) (r : Memory × ℕ) : PoolState :=
  ⟨r.1, if r.2 = NEG1 then s.live else (r.2, n) :: s.live⟩

end PoolState

inductive PoolStep : PoolState → PoolState → Prop where
  | allocate (s : PoolState) (n : ℕ) (hn : n + 4095 < 2 ^ 64) :
      PoolStep s (s.record n (s.mem.allocate n))
  | backwardAllocate (s : PoolState) (n : ℕ) (hpos : 1 ≤ n) (hn : n + 4095 < 2 ^ 64) :
      PoolStep s (s.record n (s.mem.backwardAllocate n))
  | deallocate (s : PoolState) (a n : ℕ) (hlive : (a, n) ∈ s.live) :
      PoolStep s ⟨s.mem.deallocate a, s.live.erase (a, n)⟩
  | compactMemory (s : PoolState) : PoolStep s ⟨s.mem.compactMemory, s.live⟩

/-- The size of the block for a request of `n` bytes; zero counts as 64. -/
def blockSize (n : ℕ) : ℕ := alignUp (if n = 0 then 64 else n)

/-- The representation invariant of a pool of `size` bytes whose live blocks are `live`. -/
structure Represents (size : ℕ) (m : Memory) (live : List (ℕ × ℕ)) : Prop where
  size_eq : m.size = size
  keyed : ∀ e ∈ m.pool.entries, e.2.addr = e.1
  known : ∀ e ∈ m.pool.entries, e.2.status ≠ .permanent
  partition : Tiles Prod.fst (fun e : PoolEntry => e.2.size) 0 m.pool.entries size
  positive : ∀ e ∈ m.pool.entries, 0 < e.2.size
  merged : m.pool.entries.IsChain NotBothFree
  busy : m.blocks.Perm (live.map fun b => (b.1, blockSize b.2))
  used : m.usedSize = (m.blocks.map Prod.snd).sum
  free : m.freeSize =
    ((m.pool.entries.filter (fun e => decide (IsFree e))).map (fun e => e.2.size)).sum
  aligned : 4096 ∣ size → ∀ e ∈ m.pool.entries, 4096 ∣ e.1 ∧ 4096 ∣ e.2.size

/-- Run invariant: the pool is well formed and its blocks are the live ones. -/
structure RunInv (size : ℕ) (s : PoolState) : Prop where
  inv : PoolInv s.mem
  size_eq : s.mem.size = size
  busy : s.mem.blocks.Perm (s.live.map fun b => (b.1, blockSize b.2))

theorem poolInv_ofInfo {size : ℕ} (hpos : 0 < size) (hlt : size < 2 ^ 64) :
    PoolInv (Memory.ofInfo size) where
  bound := hlt
  layout := ⟨by simp [ofInfo, SortedMap.insert, SortedMap.empty]; exact ⟨rfl, by simp, by simp⟩,
    by simpa [ofInfo, SortedMap.insert, SortedMap.empty] using hpos⟩
  merged := by simp [ofInfo, SortedMap.insert, SortedMap.empty]
  used := rfl

theorem Carved.addr_lt {m m' : Memory} {addr required : ℕ} (h : PoolInv m)
    (hc : Carved m addr required m') (hpos : 0 < required) : addr < NEG1 := by
  obtain ⟨e, he, _, hle, hend⟩ := hc.inside
  obtain ⟨_, _, hsize⟩ := h.layout.tiles.bounds e he
  have hbound := h.bound
  simp only [NEG1]; omega

/-- An allocation that carves a block of the right size keeps the run invariant. -/
theorem RunInv.record {size n : ℕ} {s : PoolState} (h : RunInv size s) {r : Memory × ℕ}
    (hr : r = (s.mem, NEG1) ∨ 0 < blockSize n ∧ Carved s.mem r.2 (blockSize n) r.1) :
    RunInv size (s.record n r) := by
  rcases hr with rfl | ⟨hpos, hc⟩
  · simpa [PoolState.record] using h
  · have hne : r.2 ≠ NEG1 := (Carved.addr_lt h.inv hc hpos).ne
    refine ⟨hc.inv, hc.size_eq.trans h.size_eq, ?_⟩
    simp only [PoolState.record, if_neg hne, List.map_cons]
    exact hc.blocks.trans (h.busy.cons _)

theorem requestSize_eq {n : ℕ} (hn : n + 4095 < 2 ^ 64) : requestSize n = blockSize n := by
  rw [requestSize, blockSize]
  split_ifs
  · exact alignSize_of_lt (by decide)
  · exact alignSize_of_lt hn

theorem blockSize_pos (n : ℕ) : 0 < blockSize n := by
  rw [blockSize, alignUp]; split_ifs <;> omega

theorem runInv_step {size : ℕ} (s t : PoolState) (hst : PoolStep s t) (h : RunInv size s) :
    RunInv size t := by
  cases hst with
  | allocate n hn =>
    apply h.record
    cases hfind : s.mem.findBestFit (requestSize n) with
    | none => exact Or.inl (allocate_none h.inv hfind)
    | some e =>
      have hpos : 0 < requestSize n := requestSize_eq hn ▸ blockSize_pos n
      obtain ⟨haddr, hc⟩ := allocate_some h.inv hfind hpos
      exact Or.inr ⟨blockSize_pos n, by rw [haddr, ← requestSize_eq hn]; exact hc⟩
  | backwardAllocate n hpos hn =>
    apply h.record
    have hsize : alignSize n = blockSize n := by
      rw [blockSize, if_neg (by omega), alignSize_of_lt hn]
    cases hfind : s.mem.findBestFitBackward (alignSize n) with
    | none => exact Or.inl (backwardAllocate_none h.inv hfind)
    | some e =>
      obtain ⟨haddr, hc⟩ := backwardAllocate_some h.inv hfind (alignSize_pos hpos hn)
      exact Or.inr ⟨blockSize_pos n, by rw [haddr, ← hsize]; exact hc⟩
  | deallocate a n hlive =>
    have hmem : (a, blockSize n) ∈ s.mem.blocks :=
      h.busy.mem_iff.mpr (List.mem_map.mpr ⟨(a, n), hlive, rfl⟩)
    obtain ⟨hinv, hsize, hperm⟩ := deallocate_spec h.inv hmem
    refine ⟨hinv, hsize.trans h.size_eq, (List.perm_cons (a, blockSize n)).mp ?_⟩
    calc (a, blockSize n) :: (s.mem.deallocate a).blocks
        |>.Perm s.mem.blocks := hperm.symm
      _ |>.Perm (s.live.map fun b => (b.1, blockSize b.2)) := h.busy
      _ |>.Perm ((a, blockSize n) :: (s.live.erase (a, n)).map fun b => (b.1, blockSize b.2)) :=
          (List.perm_cons_erase hlive).map _
  | compactMemory =>
    rw [compactMemory_eq h.inv]; exact h

/-- The free bytes are what the busy ones leave. -/
theorem freeSize_eq {m : Memory} (h : PoolInv m) : m.freeSize =
    ((m.pool.entries.filter (fun e => decide (IsFree e))).map (fun e => e.2.size)).sum := by
  have hsum := h.layout.tiles.sum_size
  have hfb := sum_free_busy m.pool.entries
  have hbound := h.bound
  have hused : m.usedSize = ((busyBlocks m.pool.entries).map Prod.snd).sum := h.used
  rw [freeSize, hused]
  omega

/-- In every state reached from a fresh pool by allocations from either end, deallocations of live
    blocks and compactions, the nodes partition the pool, are maximally merged and account for
    every live block and every byte. -/
theorem pool_invariant {size : ℕ} (hpos : 0 < size) (hlt : size < 2 ^ 64) {s : PoolState}
    (hrun : Relation.ReflTransGen PoolStep (PoolState.init size) s) :
    Represents size s.mem s.live := by
  have h : RunInv size s := Run.invariant runInv_step hrun
    ⟨poolInv_ofInfo hpos hlt, rfl, List.Perm.refl _⟩
  obtain ⟨hinv, rfl, hbusy⟩ := h
  exact
    { size_eq := rfl
      keyed := fun e he => (hinv.layout.node e he).keyed
      known := fun e he => (hinv.layout.node e he).known
      partition := hinv.layout.tiles
      positive := fun e he => (hinv.layout.tiles.bounds e he).2.1
      merged := hinv.merged
      busy := hbusy
      used := hinv.used
      free := freeSize_eq hinv
      aligned := fun hd e he => (hinv.layout.node e he).aligned hd }

/-- A pool of four pages: one page from the bottom, one from the top, the first one freed again. -/
theorem pool_invariant_four_pages : ∃ s : PoolState,
    Relation.ReflTransGen PoolStep (PoolState.init 16384) s ∧ s.live = [(12288, 1)] ∧
      Represents 16384 s.mem s.live := by
  have hrun : Relation.ReflTransGen PoolStep (PoolState.init 16384) _ :=
    ((((Relation.ReflTransGen.refl
      ).tail (.allocate _ 0 (by decide))
      ).tail (.backwardAllocate _ 1 (by decide) (by decide))
      ).tail (.deallocate _ 0 0 (by decide +kernel))
      ).tail (.compactMemory _)
  exact ⟨_, hrun, by decide +kernel, pool_invariant (by decide) (by decide) hrun⟩

end DxRt.Memory
