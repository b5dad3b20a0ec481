import DxRt.Memory.Canonical
import DxRt.Memory.Completeness
import DxRt.Memory.Isolation

/-! Freeing what has been allocated.

    The blocks determine the pool, so that freeing all blocks of a run of allocations, in any order,
    gives back the pool that it started from. This fails only for a request that is so large that its
    rounded size is zero: the empty block takes the place of the free node, or of the node behind
    it. -/

namespace DxRt.Memory
open MemoryConfig MemoryService Tiling

variable {m : Memory} {n a : ℕ} {e : PoolEntry} {l r : List PoolEntry}

/-- A successful allocation that is freed at once leaves no trace. -/
def Undone (d : PoolEnd) (m : Memory) (n : ℕ) : Prop :=
  (d.allocate m n).2 ≠ NEG1 → (d.allocate m n).1.deallocate (d.allocate m n).2 = m

/-- The size of the request does not wrap when it is rounded; or no free node is there to cut an
    empty block from; or, for a block at the high end, the node it is cut from is the last one. -/
def Undoable (d : PoolEnd) (m : Memory) (n : ℕ) : Prop :=
  n + 4095 < 2 ^ 64 ∨ ¬ ZeroFits m ∨
    d = .high ∧ ∀ e, BestNode .high m 0 e → e.1 + e.2.size = m.size

/-! ### Sound requests -/

/-- An allocation of a positive rounded size fails or carves a block. -/
theorem allocate_carves (h : PoolInv m) (d : PoolEnd) (hpos : 1 ≤ n) (hn : n + 4095 < 2 ^ 64) :
    d.allocate m n = (m, NEG1) ∨ Carved m (d.allocate m n).2 (alignUp n) (d.allocate m n).1 := by
  have hreq : 0 < alignUp n := alignSize_of_lt hn ▸ alignSize_pos hpos hn
  cases hfind : d.scan m (alignUp n) with
  | none => exact Or.inl (allocate_scan_none h d hpos hn hfind)
  | some e =>
    refine Or.inr ?_
    cases d with
    | low =>
      have hsize := requestSize_of_pos hpos hn
      obtain ⟨haddr, hc⟩ := allocate_some h (hsize ▸ hfind) (hsize ▸ hreq)
      rw [hsize] at hc
      exact haddr.symm ▸ hc
    | high =>
      have hsize := alignSize_of_lt hn
      obtain ⟨haddr, hc⟩ := backwardAllocate_some h (hsize ▸ hfind) (hsize ▸ hreq)
      rw [hsize] at hc haddr
      exact haddr.symm ▸ hc

/-- With no node to cut an empty block from, any request that wraps fails. -/
theorem allocate_zeroless (h : PoolInv m) (d : PoolEnd) (hz : ¬ ZeroFits m) (n : ℕ) :
    d.allocate m n = (m, NEG1) := by
  cases d with
  | low => exact allocate_none h (scanBestFit_zero hz (fun _ he => he) _)
  | high => exact backwardAllocate_none h (scanBestFit_zero hz (fun _ => List.mem_reverse.mp) _)

/-! ### Runs -/

/-- Allocations one after the other: the pool, and the addresses that were returned. -/
def allocateAll (m : Memory) : List (PoolEnd × ℕ) → Memory × List ℕ
  | [] => (m, [])
  | (d, n) :: requests =>
    let (m, addr) := d.allocate m n
    let (m, addrs) := allocateAll m requests
    (m, if addr = NEG1 then addrs else addr :: addrs)

/-- No request of the run has an empty block cut. -/
def NoneEmpty (m : Memory) : List (PoolEnd × ℕ) → Prop
  | [] => True
  | (d, n) :: requests =>
    (n + 4095 < 2 ^ 64 ∨ ¬ ZeroFits m) ∧ NoneEmpty (d.allocate m n).1 requests

/-- The pool has the blocks of `base`, and those at the addresses given. -/
structure Above (base m : Memory) (addrs : List ℕ) : Prop where
  inv : PoolInv m
  size_eq : m.size = base.size
  blocks : ∃ live : List (ℕ × ℕ), (live.map Prod.fst).Perm addrs ∧
    m.blocks.Perm (live ++ base.blocks)

variable {base : Memory} {addrs : List ℕ}

theorem Above.carved {m' : Memory} {required : ℕ} (h : Above base m addrs)
    (hc : Carved m a required m') : Above base m' (a :: addrs) := by
  obtain ⟨live, hlive, hblocks⟩ := h.blocks
  exact ⟨hc.inv, hc.size_eq.trans h.size_eq, (a, required) :: live, hlive.cons a,
    hc.blocks.trans (hblocks.cons _)⟩

theorem Above.deallocate (h : Above base m (a :: addrs)) : Above base (m.deallocate a) addrs := by
  obtain ⟨live, hlive, hblocks⟩ := h.blocks
  obtain ⟨b, hb, rfl⟩ := List.mem_map.mp (hlive.mem_iff.mpr (List.mem_cons_self ..))
  have hmem : (b.1, b.2) ∈ m.blocks := hblocks.mem_iff.mpr (List.mem_append_left _ hb)
  obtain ⟨hinv, hsize, hfreed⟩ := deallocate_spec h.inv hmem
  have hsplit := List.perm_cons_erase hb
  refine ⟨hinv, hsize.trans h.size_eq, live.erase b, ?_, ?_⟩
  · exact (List.perm_cons _).mp ((hsplit.map Prod.fst).symm.trans hlive)
  · refine (List.perm_cons b).mp (hfreed.symm.trans (hblocks.trans ?_))
    exact hsplit.append_right _

/-- Freeing the blocks, in the order given. -/
theorem Above.freeAll : ∀ {addrs : List ℕ} {m : Memory}, Above base m addrs → PoolInv base →
    MemoryService.freeAll m addrs = base
  | [], m, h, hbase => by
    obtain ⟨live, hlive, hblocks⟩ := h.blocks
    rw [List.map_eq_nil_iff.mp hlive.eq_nil] at hblocks
    exact eq_of_blocks h.inv hbase h.size_eq hblocks
  | a :: addrs, m, h, hbase => h.deallocate.freeAll hbase

theorem Above.perm {addrs' : List ℕ} (h : Above base m addrs) (hperm : addrs.Perm addrs') :
    Above base m addrs' := by
  obtain ⟨live, hlive, hblocks⟩ := h.blocks
  exact ⟨h.inv, h.size_eq, live, hlive.trans hperm, hblocks⟩

/-- One allocation: a new address, or the pool as it was. -/
theorem Above.allocate (h : Above base m addrs) (d : PoolEnd) (hpos : 1 ≤ n)
    (hn : n + 4095 < 2 ^ 64 ∨ ¬ ZeroFits m) :
    Above base (d.allocate m n).1
      (if (d.allocate m n).2 = NEG1 then addrs else (d.allocate m n).2 :: addrs) := by
  rcases hn with hn | hz
  · have hreq : 0 < alignUp n := alignSize_of_lt hn ▸ alignSize_pos hpos hn
    rcases allocate_carves h.inv d hpos hn with heq | hc
    · rw [heq]
      exact h
    · rw [if_neg (hc.addr_lt h.inv hreq).ne]
      exact h.carved hc
  · rw [allocate_zeroless h.inv d hz]
    exact h

theorem Above.allocateAll : ∀ {requests : List (PoolEnd × ℕ)} {m : Memory} {addrs : List ℕ},
    Above base m addrs → (∀ r ∈ requests, 1 ≤ r.2) → NoneEmpty m requests →
    Above base (allocateAll m requests).1 ((allocateAll m requests).2 ++ addrs)
  | [], m, addrs, h, _, _ => h
  | (d, n) :: requests, m, addrs, h, hpos, hok => by
    have hstep := h.allocate d (hpos _ (List.mem_cons_self ..)) hok.1
    have hrest := hstep.allocateAll (fun r hr => hpos r (List.mem_cons_of_mem _ hr)) hok.2
    refine hrest.perm ?_
    simp only [Memory.allocateAll]
    split_ifs
    · exact .refl _
    · exact List.perm_middle

theorem above_allocateAll (h : PoolInv m) {requests : List (PoolEnd × ℕ)}
    (hpos : ∀ r ∈ requests, 1 ≤ r.2) (hok : NoneEmpty m requests) :
    Above m (allocateAll m requests).1 (allocateAll m requests).2 := by
  have hself : Above m m [] := ⟨h, rfl, [], .refl _, .refl _⟩
  have hall := hself.allocateAll hpos hok
  rwa [List.append_nil] at hall

/-- Freeing in any order what a run of allocations has obtained restores the pool. -/
theorem freeAll_allocateAll (h : PoolInv m) {requests : List (PoolEnd × ℕ)}
    (hpos : ∀ r ∈ requests, 1 ≤ r.2) (hok : NoneEmpty m requests) {order : List ℕ}
    (horder : order.Perm (allocateAll m requests).2) :
    MemoryService.freeAll (allocateAll m requests).1 order = m :=
  ((above_allocateAll h hpos hok).perm horder.symm).freeAll h

theorem freeAll_allocateAll_both_ends :
    MemoryService.freeAll (allocateAll (ofInfo 65536) [(.low, 5000), (.high, 1), (.low, 4096)]).1
      [61440, 8192, 0] = ofInfo 65536 := by
  have hok : NoneEmpty (ofInfo 65536) [(.low, 5000), (.high, 1), (.low, 4096)] :=
    ⟨Or.inl (by decide), Or.inl (by decide), Or.inl (by decide), trivial⟩
  exact freeAll_allocateAll (poolInv_ofInfo (by decide) (by decide)) (by decide) hok
    (by decide +kernel)

/-! ### Empty blocks -/

/-- Between busy neighbours there is nothing to merge. -/
theorem mergeAdjacentNodes_stop {pool : SortedMap ℕ MemoryNode} {x : MemoryNode}
    (hpool : pool.entries = l ++ (a, x) :: r) (hl : ∀ p ∈ l.getLast?, ¬ IsFree p)
    (hr : ∀ q ∈ r.head?, ¬ IsFree q) : ∀ fuel, mergeAdjacentNodes fuel pool a = pool := by
  intro fuel
  cases fuel with
  | zero => rfl
  | succ fuel =>
    have hfind : pool.find? a = some x := (pool.find?_eq_some a x).mpr (by simp [hpool])
    rw [mergeAdjacentNodes, hfind, SortedMap.prev?_split hpool, SortedMap.next?_split hpool]
    cases hhead : r.head? with
    | none =>
      cases hlast : l.getLast? with
      | none => rfl
      | some p => exact if_neg (hl p hlast)
    | some q =>
      cases hlast : l.getLast? with
      | none => exact if_neg (hr q hhead)
      | some p => exact (if_neg (hl p hlast)).trans (if_neg (hr q hhead))

/-- A merge adds no key. -/
theorem find?_mergeAdjacentNodes : ∀ (fuel : ℕ) (pool : SortedMap ℕ MemoryNode) (key : ℕ),
    pool.find? a = none → (mergeAdjacentNodes fuel pool key).find? a = none := by
  intro fuel
  induction fuel with
  | zero => exact fun _ _ h => h
  | succ fuel ih =>
    intro pool key h
    have hfuse : ∀ {k k' s : ℕ} {x : MemoryNode}, pool.find? k = some x →
        (fuse pool k k' s).find? a = none := by
      intro k k' s x hk
      have hne : a ≠ k := fun heq => by rw [heq, hk] at h; cases h
      rw [fuse, SortedMap.find?_insert, if_neg hne, SortedMap.find?_erase, SortedMap.find?_erase, h]
      split_ifs <;> rfl
    rw [mergeAdjacentNodes]
    cases hkey : pool.find? key with
    | none => exact h
    | some it =>
      have hprevious : ∀ p ∈ pool.prev? key, ∀ s,
          (mergeAdjacentNodes fuel (fuse pool p.1 key s) p.1).find? a = none := by
        intro p hprev s
        have hmem : p ∈ pool.entries := (List.mem_filter.mp (List.mem_of_getLast? hprev)).1
        exact ih _ _ (hfuse ((pool.find?_eq_some p.1 p.2).mpr hmem))
      cases pool.next? key with
      | none =>
        cases hprev : pool.prev? key with
        | none => exact h
        | some p =>
          simp only
          split_ifs
          · exact hprevious p hprev _
          · exact h
      | some q =>
        cases hprev : pool.prev? key with
        | none =>
          simp only
          split_ifs
          · exact ih _ _ (hfuse hkey)
          · exact h
        | some p =>
          simp only
          split_ifs
          · exact hprevious p hprev _
          · exact ih _ _ (hfuse hkey)
          · exact h

/-- The neighbours of a free node are busy. -/
theorem busy_around (h : PoolInv m) (hm : m.pool.entries = l ++ e :: r) (hfree : IsFree e) :
    (∀ p ∈ l.getLast?, ¬ IsFree p) ∧ ∀ q ∈ r.head?, ¬ IsFree q := by
  obtain ⟨-, -, hl, hr⟩ := isChain_split.mp (hm ▸ h.merged)
  exact ⟨fun p hp hpf => hl p hp ⟨hpf, hfree⟩, fun q hq hqf => hr q hq ⟨hfree, hqf⟩⟩

/-- An empty block at the low end takes the place of the free node, whose bytes are lost. -/
theorem not_undone_low (h : PoolInv m) (hn : requestSize n = 0) (hfind : m.findBestFit 0 = some e) :
    ¬ Undone .low m n := by
  obtain ⟨k, node⟩ := e
  obtain ⟨hmem, ⟨hfree, -⟩, -⟩ := scanBestFit_some hfind
  obtain ⟨l, r, hm⟩ := List.append_of_mem hmem
  have hlay : Layout m.size (l ++ (k, node) :: r) := hm ▸ h.layout
  obtain ⟨hpos, hspan⟩ := hlay.span_at
  have hbound := h.bound
  obtain rfl : node.addr = k := hlay.node_at.keyed
  simp only at hpos hspan
  have halloc : m.allocate n =
      ({ m with
          pool := (m.pool.insert node.addr ⟨node.addr, node.size, .available⟩).insert node.addr
            ⟨node.addr, 0, .busy⟩
          usedSize := (m.usedSize + 0) % 2 ^ 64 }, node.addr) := by
    rw [allocate, ← requestSize, hn, findWithDefragmentation_eq h, hfind]
    simp only [Nat.add_zero, Nat.sub_zero, if_pos hpos,
      Nat.mod_eq_of_lt (by omega : node.addr < 2 ^ 64)]
  have hcut := SortedMap.insert_split (SortedMap.insert_split hm ⟨node.addr, node.size, .available⟩)
    ⟨node.addr, 0, .busy⟩
  have hfreed := SortedMap.insert_split hcut ⟨node.addr, 0, .available⟩
  intro hundone
  rw [Undone, PoolEnd.allocate, halloc] at hundone
  have heq := hundone (by simp only [NEG1]; omega)
  have hblock : ((m.pool.insert node.addr ⟨node.addr, node.size, .available⟩).insert node.addr
      ⟨node.addr, 0, .busy⟩).find? node.addr = some ⟨node.addr, 0, .busy⟩ := by
    rw [SortedMap.find?_insert, if_pos rfl]
  rw [deallocate, hblock] at heq
  obtain ⟨hl, hr⟩ := busy_around h hm hfree
  have hpool := congrArg (fun m : Memory => m.pool.entries) heq
  simp only [mergeAdjacentNodes_stop hfreed hl hr] at hpool
  rw [hfreed, hm] at hpool
  have hnode := (List.cons.inj (List.append_cancel_left hpool)).1
  have hsize := congrArg (fun e : PoolEntry => e.2.size) hnode
  simp only at hsize
  omega

theorem free_entry (hkey : e.2.addr = e.1) (hfree : IsFree e) :
    (e.1, (⟨e.1, e.2.size, .available⟩ : MemoryNode)) = e := by
  obtain ⟨k, ⟨addr, size, status⟩⟩ := e
  obtain rfl : addr = k := hkey
  obtain rfl : status = .available := hfree
  rfl

theorem insert_same {k : ℕ} {node : MemoryNode} (hm : m.pool.entries = l ++ (k, node) :: r) :
    m.pool.insert k node = m.pool :=
  SortedMap.ext ((SortedMap.insert_split hm node).trans hm.symm)

/-- An empty block at the high end starts where the free node ends. -/
theorem backwardAllocate_empty (h : PoolInv m) (hn : alignSize n = 0)
    (hfind : m.findBestFitBackward 0 = some e) : m.backwardAllocate n =
      ({ m with
          pool := m.pool.insert (e.1 + e.2.size) ⟨e.1 + e.2.size, 0, .busy⟩
          usedSize := (m.usedSize + 0) % 2 ^ 64 }, e.1 + e.2.size) := by
  obtain ⟨k, ⟨addr, size, status⟩⟩ := e
  obtain ⟨hmem, ⟨hfree, -⟩, -⟩ := scanBestFit_some hfind
  obtain ⟨l, r, hm⟩ := List.append_of_mem (List.mem_reverse.mp hmem)
  have hlay : Layout m.size (l ++ (k, ⟨addr, size, status⟩) :: r) := hm ▸ h.layout
  obtain ⟨hpos, hspan⟩ := hlay.span_at
  have hbound := h.bound
  obtain rfl : addr = k := hlay.node_at.keyed
  obtain rfl : status = .available := hfree
  simp only at hpos hspan
  rw [backwardAllocate, hn, findWithDefragmentation_eq h, hfind]
  simp only [Nat.sub_zero, if_pos hpos, insert_same hm,
    Nat.mod_eq_of_lt (by omega : addr + size < 2 ^ 64)]

/-- A free node behind a free node is joined to it. -/
theorem mergeAdjacentNodes_prev {pool : SortedMap ℕ MemoryNode} {x : MemoryNode}
    (hpool : pool.entries = l ++ e :: (a, x) :: r) (hfree : IsFree e) (fuel : ℕ) :
    mergeAdjacentNodes (fuel + 1) pool a =
      mergeAdjacentNodes fuel (fuse pool e.1 a ((e.2.size + x.size) % 2 ^ 64)) e.1 := by
  rw [List.append_cons] at hpool
  have hfind : pool.find? a = some x := (pool.find?_eq_some a x).mpr (by simp [hpool])
  have hstatus : e.2.status = .available := hfree
  rw [mergeAdjacentNodes, hfind, SortedMap.prev?_split hpool, List.getLast?_concat]
  simp only
  rw [if_pos hstatus]

/-- If the node is the last one, freeing the empty block leaves the pool as it was; otherwise the
    node behind is lost. -/
theorem undone_high_iff (h : PoolInv m) (hn : alignSize n = 0)
    (hfind : m.findBestFitBackward 0 = some e) (hne : e.1 + e.2.size ≠ NEG1) :
    Undone .high m n ↔ e.1 + e.2.size = m.size := by
  obtain ⟨hmem, ⟨hfree, -⟩, -⟩ := scanBestFit_some hfind
  obtain ⟨l, r, hm⟩ := List.append_of_mem (List.mem_reverse.mp hmem)
  have hlay : Layout m.size (l ++ e :: r) := hm ▸ h.layout
  obtain ⟨hpos, hspan⟩ := hlay.span_at
  have hbound := h.bound
  obtain ⟨c, -, hstart, -, hr⟩ := tiles_append.mp hlay.tiles
  have hblock : (m.pool.insert (e.1 + e.2.size) ⟨e.1 + e.2.size, 0, .busy⟩).find?
      (e.1 + e.2.size) = some ⟨e.1 + e.2.size, 0, .busy⟩ := by
    rw [SortedMap.find?_insert, if_pos rfl]
  rw [Undone, PoolEnd.allocate, backwardAllocate_empty h hn hfind, deallocate, hblock]
  simp only [ne_eq, hne, not_false_eq_true, forall_true_left]
  cases r with
  | nil =>
    have hend : e.1 + e.2.size = m.size := by rw [hstart]; exact hr
    have hcut : (m.pool.insert (e.1 + e.2.size) ⟨e.1 + e.2.size, 0, .busy⟩).entries =
        (l ++ [e]) ++ [(e.1 + e.2.size, ⟨e.1 + e.2.size, 0, .busy⟩)] := by
      refine SortedMap.insert_between (l := l ++ [e]) (r := []) (by simp [hm]) (fun x hx => ?_)
        (List.forall_mem_nil _) _
      have hx' : x ∈ m.pool.entries := by rw [hm]; exact hx
      obtain ⟨-, hxpos, hxend⟩ := h.layout.tiles.bounds x hx'
      omega
    have hfreed := SortedMap.insert_split hcut ⟨e.1 + e.2.size, 0, .available⟩
    rw [List.append_assoc, List.singleton_append] at hfreed
    refine iff_of_true ?_ hend
    have hfuse := fuse_entries (s := (e.2.size + 0) % 2 ^ 64) hfreed
    have hfree' : (e.1, (⟨e.1, (e.2.size + 0) % 2 ^ 64, .available⟩ : MemoryNode)) = e := by
      rw [Nat.add_zero, Nat.mod_eq_of_lt (by omega)]
      exact free_entry hlay.node_at.keyed hfree
    have hused : m.usedSize < 2 ^ 64 := by
      have hle : (m.blocks.map Prod.snd).sum ≤ m.size := h.layout.busy_le
      rw [h.used]
      omega
    obtain ⟨hl, -⟩ := busy_around h hm hfree
    have hlen : ∀ {p : SortedMap ℕ MemoryNode} {y : PoolEntry}, p.entries = l ++ e :: [y] →
        p.entries.length = (l.length + 1) + 1 := fun hp => by rw [hp]; simp
    rw [hlen hfreed, mergeAdjacentNodes_prev hfreed hfree, mergeAdjacentNodes_stop hfuse hl (by simp)]
    rw [hfree', ← hm] at hfuse
    rw [SortedMap.ext hfuse, Nat.add_zero, Nat.sub_zero, Nat.mod_eq_of_lt hused,
      Nat.add_mod_right, Nat.mod_eq_of_lt hused]
  | cons x r =>
    obtain ⟨hx, hxpos, hrest⟩ := hr
    have hkey : x.1 = e.1 + e.2.size := by rw [hx, hstart]
    have hxend := hrest.le
    obtain ⟨k, node⟩ := x
    obtain rfl : k = e.1 + e.2.size := hkey
    refine iff_of_false (fun heq => ?_) (by simp only at hxpos hxend; omega)
    rw [List.append_cons] at hm
    have hcut := SortedMap.insert_split hm ⟨e.1 + e.2.size, 0, .busy⟩
    have hfreed := SortedMap.insert_split hcut ⟨e.1 + e.2.size, 0, .available⟩
    rw [List.append_assoc, List.singleton_append] at hfreed
    have hlen : ∀ {p : SortedMap ℕ MemoryNode} {y : PoolEntry}, p.entries = l ++ e :: y :: r →
        p.entries.length = (l.length + r.length + 1) + 1 := fun hp => by rw [hp]; simp; omega
    have hpool := congrArg (fun m : Memory => m.pool.find? (e.1 + e.2.size)) heq
    simp only at hpool
    rw [hlen hfreed, mergeAdjacentNodes_prev hfreed hfree, find?_mergeAdjacentNodes] at hpool
    · have hmem' : (e.1 + e.2.size, node) ∈ m.pool.entries := by rw [hm]; simp
      rw [(m.pool.find?_eq_some _ _).mpr hmem'] at hpool
      cases hpool
    · rw [fuse, SortedMap.find?_insert, if_neg (by omega), SortedMap.find?_erase, if_pos rfl]

/-! ### Any request -/

theorem BestNode.unique {d : PoolEnd} {required : ℕ} {e' : PoolEntry}
    (h : BestNode d m required e) (h' : BestNode d m required e') : e = e' := by
  have hsize : e.2.size = e'.2.size :=
    Nat.le_antisymm (h.smallest e' h'.mem h'.fits) (h'.smallest e h.mem h.fits)
  have hnext := h.next e' h'.mem h'.fits hsize.symm
  have hnext' := h'.next e h.mem h.fits hsize
  have hkey : e.1 = e'.1 := by
    cases d with
    | low => exact Nat.le_antisymm hnext hnext'
    | high => exact Nat.le_antisymm hnext' hnext
  have hfind := (m.pool.find?_eq_some e.1 e.2).mpr h.mem
  have hfind' := (m.pool.find?_eq_some e'.1 e'.2).mpr h'.mem
  rw [← hkey, hfind] at hfind'
  exact Prod.ext hkey (Option.some.inj hfind')

/-- If there is a node to cut an empty block from, the scan finds one. -/
theorem scan_zero {d : PoolEnd} (hz : ZeroFits m) : ∃ e, d.scan m 0 = some e := by
  obtain ⟨e, hmem, hfree, hsize⟩ := hz
  cases hfind : d.scan m 0 with
  | some e => exact ⟨e, rfl⟩
  | none => exact absurd (scan_none hfind hmem ⟨hfree, Nat.zero_le _⟩) (not_le.mpr hsize)

theorem undone_wrapped_high (h : PoolInv m) (hn : alignSize n = 0)
    (hfind : m.findBestFitBackward 0 = some e) :
    Undone .high m n ↔ ∀ e, BestNode .high m 0 e → e.1 + e.2.size = m.size := by
  have hbest : BestNode .high m 0 e := bestNode_of_find hfind
  have hend : (∀ e, BestNode .high m 0 e → e.1 + e.2.size = m.size) ↔ e.1 + e.2.size = m.size :=
    ⟨fun hall => hall e hbest, fun heq e' hbest' => hbest.unique hbest' ▸ heq⟩
  rw [hend]
  by_cases hne : e.1 + e.2.size = NEG1
  · -- the address of the block is the failure code
    refine iff_of_true (fun hsuccess => ?_) ?_
    · rw [PoolEnd.allocate, backwardAllocate_empty h hn hfind] at hsuccess
      exact absurd hne hsuccess
    · obtain ⟨-, -, hle⟩ := h.layout.tiles.bounds e hbest.mem
      have hbound := h.bound
      simp only [NEG1] at hne
      omega
  · exact undone_high_iff h hn hfind hne

theorem undone_of_undoable (h : PoolInv m) {d : PoolEnd} (hpos : 1 ≤ n) (hn : n < 2 ^ 64)
    (hundo : Undoable d m n) : Undone d m n := by
  intro hne
  by_cases hfit : n + 4095 < 2 ^ 64
  · rcases allocate_carves h d hpos hfit with heq | hc
    · exact absurd (congrArg Prod.snd heq) hne
    · exact deallocate_carved h hc
  by_cases hz : ZeroFits m
  · rcases hundo with hlt | hnot | ⟨rfl, hlast⟩
    · exact absurd hlt hfit
    · exact absurd hz hnot
    · obtain ⟨e, hfind⟩ := scan_zero (d := .high) hz
      have hzero : alignSize n = 0 := (alignSize_eq_zero hn).mpr (by omega)
      exact (undone_wrapped_high h hzero hfind).mpr hlast hne
  · rw [allocate_zeroless h d hz] at hne
    exact absurd rfl hne

theorem undoable_of_undone (h : PoolInv m) {d : PoolEnd} (hn : n < 2 ^ 64)
    (hundone : Undone d m n) : Undoable d m n := by
  by_cases hfit : n + 4095 < 2 ^ 64
  · exact Or.inl hfit
  by_cases hz : ZeroFits m
  · have hzero : alignSize n = 0 := (alignSize_eq_zero hn).mpr (by omega)
    obtain ⟨e, hfind⟩ := scan_zero (d := d) hz
    cases d with
    | low =>
      have hreq : requestSize n = 0 := by rw [requestSize, if_neg (by omega), hzero]
      exact absurd hundone (not_undone_low h hreq hfind)
    | high => exact Or.inr (Or.inr ⟨rfl, (undone_wrapped_high h hzero hfind).mp hundone⟩)
  · exact Or.inr (Or.inl hz)

/-- Freeing undoes an allocation exactly if the size does not wrap, or the empty block does no
    harm. -/
theorem undone_iff (h : PoolInv m) (d : PoolEnd) (hpos : 1 ≤ n) (hn : n < 2 ^ 64) :
    Undone d m n ↔ Undoable d m n :=
  ⟨undoable_of_undone h hn, undone_of_undoable h hpos hn⟩

theorem undone_iff_fresh : Undone .low (ofInfo 65536) 5000 ∧
    ¬ Undone .low (ofInfo 65536) UINT64_MAX := by
  have hinv : PoolInv (ofInfo 65536) := poolInv_ofInfo (by decide) (by decide)
  refine ⟨(undone_iff hinv .low (by decide) (by decide)).mpr (Or.inl (by decide)),
    fun hundone => ?_⟩
  rcases (undone_iff hinv .low (by decide) (by decide)).mp hundone with hfit | hzero | hhigh
  · exact absurd hfit (by decide)
  · exact hzero (by decide)
  · exact PoolEnd.noConfusion hhigh.1

end DxRt.Memory
