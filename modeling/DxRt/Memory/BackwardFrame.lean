import DxRt.Memory.Isolation

/-! `BackwardAllocate` with a rounded size of zero.

    `Allocate` replaces a zero request by 64 before rounding, `BackwardAllocate` does not. A request
    that rounds to zero is cut from the end of a free node, so its address is the start of the next
    node. The frame condition of `BackwardAllocate` therefore holds exactly when the rounded size is
    positive or there is no free node to cut from. -/

namespace DxRt.MemoryService
open Memory MemoryConfig

/-- The frame condition of `BackwardAllocate(n)`. -/
def BackwardFrame (m : Memory) (n : ℕ) : Prop :=
  m.backwardAllocate n = (m, NEG1) ∨
    (∃ e ∈ m.pool.entries, IsFree e ∧ e.1 ≤ (m.backwardAllocate n).2 ∧
      (m.backwardAllocate n).2 < e.1 + e.2.size) ∧
    (m.backwardAllocate n).2 ∉ m.blocks.map Prod.fst ∧
    ∀ e ∈ m.pool.entries, ¬ IsFree e → e ∈ (m.backwardAllocate n).1.pool.entries

instance (m : Memory) (n : ℕ) : Decidable (BackwardFrame m n) :=
  inferInstanceAs (Decidable (_ ∨ (∃ e ∈ _, _) ∧ _ ∧ ∀ e ∈ _, _ → _))

/-- The address an allocation returns; `-1` for the other calls. -/
def returned (s : MemoryService) : Op → ℕ
  | .allocate size pid => (s.allocate size pid).2
  | .backwardAllocate size pid => (s.backwardAllocate size pid).2
  | .allocateForTask size pid taskId => (s.allocateForTask size pid taskId).2
  | .backwardAllocateForTask size pid taskId => (s.backwardAllocateForTask size pid taskId).2
  | _ => NEG1

theorem busy_mem_iff {m : Memory} (h : PoolInv m) {e : PoolEntry} (hbusy : ¬ IsFree e) :
    e ∈ m.pool.entries ↔ (e.1, e.2.size) ∈ m.blocks ∧ e.2 = ⟨e.1, e.2.size, .busy⟩ := by
  rw [mem_blocks_iff h, SortedMap.find?_eq_some]
  constructor
  · intro he
    have hblock : (e.1, e.2.size) ∈ m.blocks := mem_busyBlocks.mpr ⟨e.2, he, hbusy, rfl⟩
    have hfind := (m.pool.find?_eq_some _ _).mp ((mem_blocks_iff h).mp hblock)
    exact ⟨hfind, m.pool.key_unique he hfind⟩
  · rintro ⟨hmem, heq⟩
    rw [← heq] at hmem
    exact hmem

/-- A cut of positive size satisfies the frame condition. -/
theorem frame_of_allocated {m : Memory} (h : PoolInv m) {n : ℕ}
    (ha : Allocated m (m.backwardAllocate n)) : BackwardFrame m n := by
  rcases ha with hnone | ⟨required, hpos, hc⟩
  · exact Or.inl hnone
  · refine Or.inr ⟨?_, Carved.fresh hc, fun e he hbusy => ?_⟩
    · obtain ⟨e, he, hfree, hle, hend⟩ := hc.inside
      exact ⟨e, he, hfree, hle, by omega⟩
    · obtain ⟨hblock, heq⟩ := (busy_mem_iff h hbusy).mp he
      exact (busy_mem_iff hc.inv hbusy).mpr
        ⟨hc.blocks.mem_iff.mpr (List.mem_cons_of_mem _ hblock), heq⟩

/-- A rounded size of zero is cut at the end of the node found. -/
theorem backwardAllocate_zero {m : Memory} (h : PoolInv m) {n : ℕ} (hn : alignSize n = 0)
    (hz : ZeroFits m) : ∃ e ∈ m.pool.entries, IsFree e ∧
      (m.backwardAllocate n).2 = e.1 + e.2.size ∧
      (m.backwardAllocate n).1.pool.find? (e.1 + e.2.size) =
        some ⟨e.1 + e.2.size, 0, .busy⟩ := by
  cases hfind : m.findBestFitBackward 0 with
  | none =>
    obtain ⟨e, he, hfree, hmax⟩ := hz
    have hge := scanBestFit_none hfind e (List.mem_reverse.mpr he) ⟨hfree, Nat.zero_le _⟩
    omega
  | some e =>
    obtain ⟨hmem, ⟨hfree, _⟩, _⟩ := scanBestFit_some hfind
    have he := List.mem_reverse.mp hmem
    obtain ⟨_, hpos, hend⟩ := h.layout.tiles.bounds e he
    have hkey : e.2.addr = e.1 := (h.layout.node e he).keyed
    have hbound := h.bound
    have hmod : (e.1 + e.2.size) % 2 ^ 64 = e.1 + e.2.size := Nat.mod_eq_of_lt (by omega)
    refine ⟨e, he, hfree, ?_⟩
    rw [Memory.backwardAllocate, hn, findWithDefragmentation_eq h, hfind]
    simp only [hkey, hpos, if_true, Nat.sub_zero, hmod]
    exact ⟨trivial, by rw [SortedMap.find?_insert, if_pos rfl]⟩

/-- The end of a free node lies in no free node: the next node is busy. -/
theorem end_not_free {m : Memory} (h : PoolInv m) {e : PoolEntry} (he : e ∈ m.pool.entries)
    (hfree : IsFree e) : ¬ ∃ x ∈ m.pool.entries, IsFree x ∧ x.1 ≤ e.1 + e.2.size ∧
      e.1 + e.2.size < x.1 + x.2.size := by
  rintro ⟨x, hx, hxfree, hle, hlt⟩
  obtain ⟨l, r, hm⟩ := List.append_of_mem he
  obtain ⟨hbefore, hafter⟩ := nodes_around (a := e.1) h hm
  have htiles := hm ▸ h.layout.tiles.pairwise
  rw [hm] at hx
  rcases List.mem_append.mp hx with hx | hx
  · have hsep := (List.pairwise_append.mp htiles).2.2 x hx e (List.mem_cons_self ..)
    omega
  · rcases List.mem_cons.mp hx with rfl | hx
    · omega
    · obtain ⟨_, _, _, hnext⟩ := isChain_split.mp (hm ▸ h.merged)
      cases r with
      | nil => cases hx
      | cons y r =>
        have hy : ¬ IsFree y := fun hy => hnext y rfl ⟨hfree, hy⟩
        rcases List.mem_cons.mp hx with rfl | hx
        · exact hy hxfree
        · have hsep := (List.pairwise_cons.mp
            (List.pairwise_cons.mp (List.pairwise_append.mp htiles).2.1).2).1 x hx
          have hypos := (h.layout.tiles.bounds y (by rw [hm]; simp)).2.1
          have hyle := hafter y (List.mem_cons_self ..)
          omega

/-- In a well-formed pool the frame condition fails exactly for the empty cut. -/
theorem backwardFrame_iff {m : Memory} (h : PoolInv m) {n : ℕ} :
    BackwardFrame m n ↔ alignSize n ≠ 0 ∨ ¬ ZeroFits m := by
  constructor
  · intro hframe
    by_contra hcon
    rw [not_or, not_not, not_not] at hcon
    obtain ⟨e, he, hfree, haddr, hnode⟩ := backwardAllocate_zero h hcon.1 hcon.2
    rcases hframe with hnone | ⟨hin, _⟩
    · rw [hnone] at hnode
      have hpos := (h.layout.tiles.bounds _ ((m.pool.find?_eq_some _ _).mp hnode)).2.1
      exact absurd hpos (lt_irrefl _)
    · rw [haddr] at hin
      exact end_not_free h he hfree hin
  · intro hn
    exact frame_of_allocated h (backwardAllocate_allocated h hn)

/-- A sound allocation returns an address that is recorded for nobody. -/
theorem returned_fresh {s : MemoryService} (h : Owned s) {op : Op} (hop : s.Sound op)
    (hne : s.returned op ≠ NEG1) (o : Owner) : ¬ s.Owns o (s.returned op) := by
  have hgrant : ∀ {o' : Owner} {r : MemoryService × ℕ}, r = (s, NEG1) ∨ Granted s o' r.2 r.1 →
      r.2 ≠ NEG1 → ¬ s.Owns o r.2 := by
    rintro o' r (rfl | hg) hr
    · exact absurd rfl hr
    · exact hg.fresh o
  cases op with
  | allocate n pid => exact hgrant (allocate_spec h hop) hne
  | backwardAllocate n pid => exact hgrant (backwardAllocate_spec h hop) hne
  | allocateForTask n pid t => exact hgrant (allocateForTask_spec h hop) hne
  | backwardAllocateForTask n pid t => exact hgrant (backwardAllocateForTask_spec h hop) hne
  | deallocateAddress | deallocateTask | deallocateAll | deallocateAllTasks
  | deallocateAllForProcess | optimizeMemory => exact absurd rfl hne

/-- In every state reached without an empty cut, and for every 64-bit request that the service
    admits, `BackwardAllocate` meets its frame condition exactly if the request is neither zero nor
    within 4095 of `2^64`, or nothing is free; and then no address has two owners, nor is one
    handed out that is still recorded. -/
theorem backward_frame {memSize : ℕ} (hpos : 0 < memSize) (hlt : memSize < 2 ^ 64)
    {s : MemoryService} (hrun : Relation.ReflTransGen (Step Sound) (ofInfo memSize) s) :
    (∀ n, n < 2 ^ 64 → s.admits n = true →
      (BackwardFrame s.mem n ↔ n ≠ 0 ∧ n + 4095 < 2 ^ 64 ∨ ¬ ZeroFits s.mem)) ∧
    (∀ o o' a, s.Owns o a → s.Owns o' a → o = o') ∧
    ∀ op, s.Sound op → s.returned op ≠ NEG1 → ∀ o, ¬ s.Owns o (s.returned op) := by
  have h : RunOwned memSize s := run_owned hpos hlt (fun _ _ _ hop => hop) hrun
  refine ⟨fun n hn _ => ?_, h.owned.unique, fun op hop hne o => returned_fresh h.owned hop hne o⟩
  rw [backwardFrame_iff h.owned.pool, Ne, alignSize_eq_zero hn, not_or, not_le]

/-- A block at the top of a device of four pages: a zero request breaks the frame, one byte does
    not. -/
theorem backward_frame_four_pages : ∃ s : MemoryService,
    Relation.ReflTransGen (Step Sound) (ofInfo 16384) s ∧ s.Owns (.legacy 1) 12288 ∧
      ¬ BackwardFrame s.mem 0 ∧ BackwardFrame s.mem 1 := by
  have hrun : Relation.ReflTransGen (Step Sound) (ofInfo 16384) _ :=
    Relation.ReflTransGen.refl.tail
      ⟨.backwardAllocate 4096 1, fun _ => Or.inl (by decide +kernel), rfl⟩
  have hframe := (backward_frame (by decide) (by decide) hrun).1
  refine ⟨_, hrun, by decide +kernel, fun hf => ?_, ?_⟩
  · rcases (hframe 0 (by decide) (by decide +kernel)).mp hf with hc | hc
    · exact hc.1 rfl
    · exact hc (by decide +kernel)
  · exact (hframe 1 (by decide) (by decide +kernel)).mpr (Or.inl (by decide))

/-- Process 1 holds the last page of a device of four pages. `BackwardAllocate(0)` for process 2
    returns the address of that page and overwrites its node. -/
theorem backward_frame_zero_request : ∃ s : MemoryService,
    Relation.ReflTransGen (Step fun _ op => ∀ n, op.size? = some n → n < 2 ^ 64) (ofInfo 16384) s ∧
      s.admits 0 = true ∧ s.mem.pool.find? 12288 = some ⟨12288, 4096, .busy⟩ ∧
      ¬ BackwardFrame s.mem 0 ∧ (s.backwardAllocate 0 2).2 = 12288 ∧
      (s.backwardAllocate 0 2).1.mem.pool.find? 12288 = some ⟨12288, 0, .busy⟩ ∧
      (s.backwardAllocate 0 2).1.Owns (.legacy 1) 12288 ∧
      (s.backwardAllocate 0 2).1.Owns (.legacy 2) 12288 := by
  have hrun : Relation.ReflTransGen
      (Step fun _ op => ∀ n, op.size? = some n → n < 2 ^ 64) (ofInfo 16384) _ :=
    Relation.ReflTransGen.refl.tail
      ⟨.backwardAllocate 4096 1, by rintro n ⟨⟩; decide, rfl⟩
  exact ⟨_, hrun, by decide +kernel⟩

end DxRt.MemoryService
