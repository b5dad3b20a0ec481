import DxRt.Memory.Run
import DxRt.Memory.Service

/-! When an allocation fails, and where it is placed.

    The four allocation functions of the service pass through a check above 100 MB, a best-fit scan
    from one end of the pool, and a second scan after defragmentation. The check and the second scan
    never matter: what counts is whether the scan finds a node. It sees every free node but one of
    `UINT64_MAX` bytes, with which its search for something smaller begins. -/

namespace DxRt.Memory
open MemoryConfig

/-- The end of the free nodes that a function cuts from; it is also the end of the pool that its
    scan begins at. -/
inductive PoolEnd where
  | low
  | high

namespace PoolEnd

/-- `a` is not further from this end than `b`. -/
def Before : PoolEnd → ℕ → ℕ → Prop
  | .low, a, b => a ≤ b
  | .high, a, b => b ≤ a

/-- Where a block cut from a node starts. -/
def start : PoolEnd → PoolEntry → ℕ → ℕ
  | .low, e, _ => e.1
  | .high, e, required => e.1 + (e.2.size - required)

/-- What is left of a node: the block, and the rest, which stays free. -/
def cut : PoolEnd → PoolEntry → ℕ → List PoolEntry
  | .low => cutLow
  | .high => cutHigh

def scan : PoolEnd → Memory → ℕ → Option PoolEntry
  | .low => findBestFit
  | .high => findBestFitBackward

def allocate : PoolEnd → Memory → ℕ → Memory × ℕ
  | .low => Memory.allocate
  | .high => Memory.backwardAllocate

end PoolEnd

/-- A free node of the smallest sufficient size, and of these the one next to the end. -/
structure BestNode (d : PoolEnd) (m : Memory) (required : ℕ) (e : PoolEntry) : Prop where
  mem : e ∈ m.pool.entries
  fits : Candidate required e
  smallest : ∀ x ∈ m.pool.entries, Candidate required x → e.2.size ≤ x.2.size
  next : ∀ x ∈ m.pool.entries, Candidate required x → x.2.size = e.2.size → d.Before e.1 x.1

/-- `Allocate` without the second scan. -/
def allocateOnce (m : Memory) (required : ℕ) : Memory × ℕ :=
  let required := requestSize required
  match m.findBestFit required with
  | some (_, node) =>
    let addr := node.addr
    let rest := (addr + required) % 2 ^ 64
    let pool :=
      if required < node.size then m.pool.insert rest ⟨rest, node.size - required, .available⟩
      else m.pool
    ({ m with
        pool := pool.insert addr ⟨addr, required, .busy⟩
        usedSize := (m.usedSize + required) % 2 ^ 64 }, addr)
  | none => (m, NEG1)

/-- `BackwardAllocate` without the second scan. -/
def backwardAllocateOnce (m : Memory) (required : ℕ) : Memory × ℕ :=
  let required := alignSize required
  match m.findBestFitBackward required with
  | some (_, node) =>
    let addr := node.addr
    let remain := node.size - required
    let pool :=
      if required < node.size then m.pool.insert addr ⟨addr, remain, .available⟩ else m.pool
    let addr := if required < node.size then (addr + remain) % 2 ^ 64 else addr
    ({ m with
        pool := pool.insert addr ⟨addr, required, .busy⟩
        usedSize := (m.usedSize + required) % 2 ^ 64 }, addr)
  | none => (m, NEG1)

def PoolEnd.allocateOnce : PoolEnd → Memory → ℕ → Memory × ℕ
  | .low => Memory.allocateOnce
  | .high => Memory.backwardAllocateOnce

/-- A node has given way to a cut; every other node is as it was. -/
structure Placed (m : Memory) (e : PoolEntry) (required : ℕ) (cut : List PoolEntry)
    (m' : Memory) : Prop where
  nodes : ∀ x, x ∈ m'.pool.entries ↔ x ∈ cut ∨ x ∈ m.pool.entries ∧ x ≠ e
  size_eq : m'.size = m.size
  used : m'.usedSize = m.usedSize + required

/-- A free node that the scan does not see. -/
def Unseen (m : Memory) : Prop := ∃ e ∈ m.pool.entries, IsFree e ∧ e.2.size = UINT64_MAX

variable {m : Memory} {e : PoolEntry} {required n : ℕ}

/-! ### The scan -/

/-- The node found is the smallest that is large enough; those before it are larger. -/
theorem scanBestFit_first {l : List PoolEntry} (h : scanBestFit required l = some e) :
    ∃ l₁ l₂, l = l₁ ++ e :: l₂ ∧ (∀ x ∈ l₁, Candidate required x → e.2.size < x.2.size) ∧
      ∀ x ∈ l₂, Candidate required x → e.2.size ≤ x.2.size := by
  have hbest := bestOf_scan required l
  rw [scanBestFit] at h
  rcases hacc : l.foldl (betterFit required) (none, UINT64_MAX) with ⟨o, s⟩
  rw [hacc] at h hbest
  subst h
  obtain ⟨-, -, -, l₁, l₂, hl, hbefore, hafter⟩ := hbest
  exact ⟨l₁, l₂, hl, hbefore, hafter⟩

/-- The best node of a list in which the keys are ordered from the end on. -/
theorem bestNode_of_scan {d : PoolEnd} {l : List PoolEntry}
    (hl : ∀ x, x ∈ l ↔ x ∈ m.pool.entries) (horder : l.Pairwise fun x y => d.Before x.1 y.1)
    (h : scanBestFit required l = some e) : BestNode d m required e := by
  obtain ⟨hmem, hcand, -⟩ := scanBestFit_some h
  obtain ⟨l₁, l₂, rfl, hbefore, hafter⟩ := scanBestFit_first h
  have hcases : ∀ x ∈ m.pool.entries, x ∈ l₁ ∨ x = e ∨ x ∈ l₂ := fun x hx =>
    (List.mem_append.mp ((hl x).mpr hx)).imp_right List.mem_cons.mp
  refine ⟨(hl e).mp hmem, hcand, fun x hx hxcand => ?_, fun x hx hxcand hsize => ?_⟩
  · rcases hcases x hx with hin | rfl | hin
    · exact (hbefore x hin hxcand).le
    · exact le_refl _
    · exact hafter x hin hxcand
  · rcases hcases x hx with hin | rfl | hin
    · exact absurd hsize (hbefore x hin hxcand).ne'
    · cases d <;> exact le_refl _
    · exact (List.pairwise_cons.mp (List.pairwise_append.mp horder).2.1).1 x hin

theorem bestNode_of_find {d : PoolEnd} (h : d.scan m required = some e) :
    BestNode d m required e := by
  cases d with
  | low => exact bestNode_of_scan (fun _ => Iff.rfl) (m.pool.sorted.imp le_of_lt) h
  | high =>
    refine bestNode_of_scan (fun _ => List.mem_reverse) ?_ h
    exact List.pairwise_reverse.mpr (m.pool.sorted.imp le_of_lt)

/-- The scan finds a node exactly if there is one that is large enough and not too large. -/
theorem scan_none {d : PoolEnd} (h : d.scan m required = none) (hmem : e ∈ m.pool.entries)
    (hcand : Candidate required e) : UINT64_MAX ≤ e.2.size := by
  cases d with
  | low => exact scanBestFit_none h e hmem hcand
  | high => exact scanBestFit_none h e (List.mem_reverse.mpr hmem) hcand

theorem scan_seen {d : PoolEnd} (h : d.scan m required = some e) :
    e ∈ m.pool.entries ∧ Candidate required e ∧ e.2.size < UINT64_MAX := by
  cases d with
  | low => exact scanBestFit_some h
  | high =>
    obtain ⟨hmem, hrest⟩ := scanBestFit_some h
    exact ⟨List.mem_reverse.mp hmem, hrest⟩

/-- An unseen node is the whole pool. -/
theorem scan_unseen {d : PoolEnd} (h : PoolInv m) (hunseen : Unseen m) (required : ℕ) :
    d.scan m required = none := by
  cases hfind : d.scan m required with
  | none => rfl
  | some e =>
    obtain ⟨hmem, -, hsize⟩ := scan_seen hfind
    obtain ⟨whole, hwhole, -, hmax⟩ := hunseen
    obtain ⟨l, r, hm⟩ := List.append_of_mem hwhole
    obtain ⟨hbefore, hafter⟩ :=
      nodes_around h (show m.pool.entries = l ++ (whole.1, whole.2) :: r from hm)
    obtain ⟨-, -, hend⟩ := h.layout.tiles.bounds whole hwhole
    obtain ⟨-, hpos, hend'⟩ := h.layout.tiles.bounds e hmem
    have hbound := h.bound
    simp only [UINT64_MAX] at hmax hsize
    rw [hm] at hmem
    rcases List.mem_append.mp hmem with hin | hin
    · have := hbefore e hin
      omega
    · rcases List.mem_cons.mp hin with rfl | hin
      · omega
      · have := hafter e hin
        omega

/-! ### Allocation -/

theorem allocateOnce_eq (h : PoolInv m) (d : PoolEnd) (n : ℕ) :
    d.allocate m n = d.allocateOnce m n := by
  cases d with
  | low =>
    simp only [PoolEnd.allocate, PoolEnd.allocateOnce, Memory.allocate, Memory.allocateOnce,
      findWithDefragmentation_eq h, requestSize]
    cases m.findBestFit (alignSize (if n = 0 then 64 else n)) <;> rfl
  | high =>
    simp only [PoolEnd.allocate, PoolEnd.allocateOnce, Memory.backwardAllocate,
      Memory.backwardAllocateOnce, findWithDefragmentation_eq h]
    cases m.findBestFitBackward (alignSize n) <;> rfl

theorem requestSize_of_pos (hpos : 1 ≤ n) (hn : n + 4095 < 2 ^ 64) : requestSize n = alignUp n := by
  rw [requestSize, if_neg (by omega), alignSize_of_lt hn]

theorem Carved.used_eq {m' : Memory} {addr : ℕ} (hc : Carved m addr required m') (h : PoolInv m) :
    m'.usedSize = m.usedSize + required := by
  rw [hc.inv.used, h.used, (hc.blocks.map Prod.snd).sum_eq, List.map_cons, List.sum_cons,
    Nat.add_comm]

theorem placed_of_cut {l r cut : List PoolEntry} {m' : Memory} {addr : ℕ} (h : PoolInv m)
    (hm : m.pool.entries = l ++ e :: r) (hc : Carved m addr required m')
    (hcut : CutAt m l r required cut m') : Placed m e required cut m' where
  size_eq := hcut.size_eq
  used := hc.used_eq h
  nodes x := by
    have hnodup := m.pool.entries_nodup
    rw [hm, List.nodup_append] at hnodup
    obtain ⟨-, hr, hl⟩ := hnodup
    have hnot := (List.nodup_cons.mp hr).1
    rw [hcut.entries, hm, List.mem_append, List.mem_append, List.mem_append, List.mem_cons]
    constructor
    · rintro ((hin | hin) | hin)
      · exact Or.inr ⟨Or.inl hin, hl x hin e (List.mem_cons_self ..)⟩
      · exact Or.inl hin
      · exact Or.inr ⟨Or.inr (Or.inr hin), fun heq => hnot (heq ▸ hin)⟩
    · rintro (hin | ⟨hin | rfl | hin, hne⟩)
      · exact Or.inl (Or.inr hin)
      · exact Or.inl (Or.inl hin)
      · exact absurd rfl hne
      · exact Or.inr hin

/-- An allocation fails if the scan finds nothing. -/
theorem allocate_scan_none (h : PoolInv m) (d : PoolEnd) (hpos : 1 ≤ n) (hn : n + 4095 < 2 ^ 64)
    (hfind : d.scan m (alignUp n) = none) : d.allocate m n = (m, NEG1) := by
  cases d with
  | low => exact allocate_none h (requestSize_of_pos hpos hn ▸ hfind)
  | high => exact backwardAllocate_none h (alignSize_of_lt hn ▸ hfind)

/-- An allocation cuts its block from the node found. -/
theorem allocate_scan_some (h : PoolInv m) (d : PoolEnd) (hpos : 1 ≤ n) (hn : n + 4095 < 2 ^ 64)
    (hfind : d.scan m (alignUp n) = some e) :
    (d.allocate m n).2 = d.start e (alignUp n) ∧ (d.allocate m n).2 ≠ NEG1 ∧
      Placed m e (alignUp n) (d.cut e (alignUp n)) (d.allocate m n).1 := by
  obtain ⟨hmem, ⟨-, hle⟩, -⟩ := scan_seen hfind
  obtain ⟨l, r, hm⟩ := List.append_of_mem hmem
  have hreq : 0 < alignUp n := alignSize_of_lt hn ▸ alignSize_pos hpos hn
  cases d with
  | low =>
    have hsize := requestSize_of_pos hpos hn
    have hfind' : m.findBestFit (requestSize n) = some e := hsize ▸ hfind
    obtain ⟨haddr, hc⟩ := allocate_some h hfind' (hsize ▸ hreq)
    obtain ⟨-, hcut⟩ := allocate_cut h hfind' hm (hsize ▸ hreq)
    rw [hsize] at hc hcut
    refine ⟨haddr, ?_, placed_of_cut h hm hc hcut⟩
    exact haddr ▸ (hc.addr_lt h hreq).ne
  | high =>
    have hsize := alignSize_of_lt hn
    have hfind' : m.findBestFitBackward (alignSize n) = some e := hsize ▸ hfind
    obtain ⟨haddr, hc⟩ := backwardAllocate_some h hfind' (hsize ▸ hreq)
    obtain ⟨haddr', hcut⟩ := backwardAllocate_cut h hfind' hm (hsize ▸ hreq)
    rw [hsize] at hc hcut haddr haddr'
    refine ⟨haddr', ?_, placed_of_cut h hm hc hcut⟩
    exact haddr ▸ (hc.addr_lt h hreq).ne

end DxRt.Memory

/-! ### The service -/

namespace DxRt.MemoryService
open Memory MemoryConfig

/-- An allocation with neither the check above 100 MB nor the second scan. -/
def allocateUnchecked (d : PoolEnd) (track : MemoryService → ℕ → MemoryService) (s : MemoryService)
    (size : ℕ) : MemoryService × ℕ :=
  let (mem, addr) := d.allocateOnce s.mem size
  let s := { s with mem := mem }
  (if addr ≠ NEG1 then track s addr else s, addr)

/-- An allocation of `n` bytes fails exactly if no free node is large enough, and then changes
    nothing; otherwise it is placed as it should be. The check and the second scan do not matter. -/
structure Complete (d : PoolEnd) (track : MemoryService → ℕ → MemoryService) (s : MemoryService)
    (n : ℕ) (r : MemoryService × ℕ) : Prop where
  fails : r.2 = NEG1 ↔ ∀ e ∈ s.mem.pool.entries, ¬ Candidate (alignUp n) e
  unchanged : r.2 = NEG1 → r.1 = s
  placed : r.2 ≠ NEG1 → ∃ e, BestNode d s.mem (alignUp n) e ∧ r.2 = d.start e (alignUp n) ∧
    Placed s.mem e (alignUp n) (d.cut e (alignUp n)) r.1.mem
  unchecked : r = allocateUnchecked d track s n

variable {s : MemoryService} {n : ℕ} {d : PoolEnd} {track : MemoryService → ℕ → MemoryService}

theorem le_alignUp (n : ℕ) : n ≤ alignUp n := by
  rw [alignUp]
  omega

/-- What the check refuses does not fit in any free node. -/
theorem not_candidate_of_refused (h : s.admits n = false) {e : PoolEntry}
    (hmem : e ∈ s.mem.pool.entries) : ¬ Candidate (alignUp n) e := by
  rw [admits, Bool.not_eq_false', Bool.and_eq_true, Bool.not_eq_true'] at h
  have hnone := List.any_eq_false.mp h.2 e hmem
  rintro ⟨hfree, hle⟩
  exact hnone (by simpa using ⟨hfree, (le_alignUp n).trans hle⟩)

theorem allocateUnchecked_refused (h : PoolInv s.mem) (hpos : 1 ≤ n) (hn : n + 4095 < 2 ^ 64)
    (hnone : ∀ e ∈ s.mem.pool.entries, ¬ Candidate (alignUp n) e) :
    d.scan s.mem (alignUp n) = none ∧ allocateUnchecked d track s n = (s, NEG1) := by
  have hfind : d.scan s.mem (alignUp n) = none := by
    cases hfind : d.scan s.mem (alignUp n) with
    | none => rfl
    | some e => exact absurd (scan_seen hfind).2.1 (hnone e (scan_seen hfind).1)
  refine ⟨hfind, ?_⟩
  rw [allocateUnchecked, ← allocateOnce_eq h, allocate_scan_none h d hpos hn hfind]
  rfl

theorem allocateWith_unchecked (h : PoolInv s.mem) (hpos : 1 ≤ n) (hn : n + 4095 < 2 ^ 64) :
    s.allocateWith d.allocate track n = allocateUnchecked d track s n := by
  rw [allocateWith]
  split_ifs with hadmits
  · rw [allocateUnchecked, ← allocateOnce_eq h]
  · rw [Bool.not_eq_true] at hadmits
    exact (allocateUnchecked_refused h hpos hn fun _ => not_candidate_of_refused hadmits).2.symm

theorem complete_of_seen (h : PoolInv s.mem) (hpos : 1 ≤ n) (hn : n + 4095 < 2 ^ 64)
    (htrack : ∀ s addr, (track s addr).mem = s.mem) (hseen : ¬ Unseen s.mem) :
    Complete d track s n (s.allocateWith d.allocate track n) := by
  have heq : s.allocateWith d.allocate track n = allocateUnchecked d track s n :=
    allocateWith_unchecked h hpos hn
  cases hfind : d.scan s.mem (alignUp n) with
  | none =>
    have hnone : ∀ e ∈ s.mem.pool.entries, ¬ Candidate (alignUp n) e := by
      intro e hmem hcand
      have hge := scan_none hfind hmem hcand
      obtain ⟨-, -, hend⟩ := h.layout.tiles.bounds e hmem
      have hbound := h.bound
      exact hseen ⟨e, hmem, hcand.1, by simp only [UINT64_MAX] at hge ⊢; omega⟩
    obtain ⟨-, hfail⟩ : d.scan s.mem (alignUp n) = none ∧ allocateUnchecked d track s n = (s, NEG1) :=
      allocateUnchecked_refused h hpos hn hnone
    rw [hfail] at heq
    rw [heq]
    exact ⟨⟨fun _ => hnone, fun _ => rfl⟩, fun _ => rfl, fun hne => absurd rfl hne, hfail.symm⟩
  | some e =>
    obtain ⟨hmem, hcand, -⟩ := scan_seen hfind
    obtain ⟨haddr, hne, hplaced⟩ := allocate_scan_some h d hpos hn hfind
    have hresult : allocateUnchecked d track s n =
        (track { s with mem := (d.allocate s.mem n).1 } (d.allocate s.mem n).2,
          (d.allocate s.mem n).2) := by
      rw [allocateUnchecked, ← allocateOnce_eq h]
      simp only [if_pos hne]
    rw [heq]
    refine ⟨⟨fun hfail => ?_, fun hnone => absurd hcand (hnone e hmem)⟩, fun hfail => ?_,
      fun _ => ⟨e, bestNode_of_find hfind, ?_, ?_⟩, rfl⟩
    · rw [hresult] at hfail
      exact absurd hfail hne
    · rw [hresult] at hfail
      exact absurd hfail hne
    · rw [hresult]
      exact haddr
    · rw [hresult, htrack]
      exact hplaced

/-- An unseen node makes every allocation fail that fits in it. -/
theorem seen_of_complete (h : PoolInv s.mem) (hpos : 1 ≤ n) (hn : n + 4095 < 2 ^ 64)
    (hcomplete : Complete d track s n (s.allocateWith d.allocate track n)) : ¬ Unseen s.mem := by
  rintro ⟨e, hmem, hfree, hsize⟩
  have hfind := scan_unseen (d := d) h ⟨e, hmem, hfree, hsize⟩ (alignUp n)
  have hfail : (s.allocateWith d.allocate track n).2 = NEG1 := by
    rw [allocateWith_unchecked h hpos hn, allocateUnchecked, ← allocateOnce_eq h,
      allocate_scan_none h d hpos hn hfind]
  refine hcomplete.fails.mp hfail e hmem ⟨hfree, ?_⟩
  rw [hsize, alignUp, UINT64_MAX]
  omega

/-- The four allocation functions do what they should on every pool, unless it is one free node of
    `UINT64_MAX` bytes. -/
theorem allocation_complete_iff (h : PoolInv s.mem) (hpos : 1 ≤ n) (hn : n + 4095 < 2 ^ 64)
    (pid taskId : ℤ) :
    (Complete .low (fun s => s.trackLegacy pid) s n (s.allocate n pid) ∧
      Complete .low (fun s => s.trackTask pid taskId) s n (s.allocateForTask n pid taskId) ∧
      Complete .high (fun s => s.trackLegacy pid) s n (s.backwardAllocate n pid) ∧
      Complete .high (fun s => s.trackTask pid taskId) s n
        (s.backwardAllocateForTask n pid taskId)) ↔
    ∀ e ∈ s.mem.pool.entries, IsFree e → e.2.size ≠ UINT64_MAX := by
  constructor
  · intro hcomplete e hmem hfree hsize
    exact seen_of_complete (d := .low) h hpos hn hcomplete.1 ⟨e, hmem, hfree, hsize⟩
  · intro hall
    have hseen : ¬ Unseen s.mem := fun ⟨e, hmem, hfree, hsize⟩ => hall e hmem hfree hsize
    exact ⟨complete_of_seen h hpos hn (fun _ _ => rfl) hseen,
      complete_of_seen h hpos hn (fun _ _ => rfl) hseen,
      complete_of_seen h hpos hn (fun _ _ => rfl) hseen,
      complete_of_seen h hpos hn (fun _ _ => rfl) hseen⟩

/-- Between two single pages two are free, and twelve behind them. -/
def fragmented : MemoryService where
  mem := ((((Memory.ofInfo 65536).allocate 4096).1.allocate 8192).1.allocate 4096).1.deallocate 4096
  legacyAllocInfo := .empty
  taskAllocInfo := .empty

theorem poolInv_fragmented : PoolInv fragmented.mem := by
  have hinit : RunInv 65536 (.init 65536) :=
    ⟨poolInv_ofInfo (by decide) (by decide), rfl, .refl _⟩
  have hfirst := runInv_step _ _ (.allocate _ 4096 (by decide)) hinit
  have hsecond := runInv_step _ _ (.allocate _ 8192 (by decide)) hfirst
  have hthird := runInv_step _ _ (.allocate _ 4096 (by decide)) hsecond
  exact (runInv_step _ _ (.deallocate _ 4096 8192 (by decide +kernel)) hthird).inv

/-- For 5000 bytes the smaller of two free nodes is taken from either end; 50000 bytes are
    refused. -/
theorem allocation_complete_fragmented :
    Complete .low (fun s => s.trackLegacy 1) fragmented 5000 (fragmented.allocate 5000 1) ∧
      (fragmented.allocate 5000 1).2 = 4096 ∧
      Complete .high (fun s => s.trackTask 1 3) fragmented 5000
        (fragmented.backwardAllocateForTask 5000 1 3) ∧
      (fragmented.backwardAllocateForTask 5000 1 3).2 = 4096 ∧
      Complete .high (fun s => s.trackLegacy 1) fragmented 50000
        (fragmented.backwardAllocate 50000 1) ∧
      (fragmented.backwardAllocate 50000 1).2 = NEG1 := by
  have hnodes : ∀ e ∈ fragmented.mem.pool.entries, IsFree e → e.2.size ≠ UINT64_MAX := by
    decide +kernel
  have hsmall := (allocation_complete_iff poolInv_fragmented (n := 5000) (by decide) (by decide)
    1 3).mpr hnodes
  have hlarge := (allocation_complete_iff poolInv_fragmented (n := 50000) (by decide) (by decide)
    1 3).mpr hnodes
  exact ⟨hsmall.1, by decide +kernel, hsmall.2.2.2, by decide +kernel, hlarge.2.2.1,
    by decide +kernel⟩

/-- A pool of `UINT64_MAX` bytes, all of them free, refuses a single byte. -/
theorem largest_pool_refuses : PoolInv (ofInfo UINT64_MAX).mem ∧
    (∃ e ∈ (ofInfo UINT64_MAX).mem.pool.entries, Candidate (alignUp 1) e) ∧
    ((ofInfo UINT64_MAX).allocate 1 1).2 = NEG1 ∧
    ((ofInfo UINT64_MAX).backwardAllocate 1 1).2 = NEG1 :=
  ⟨poolInv_ofInfo (by decide) (by decide), ⟨(0, ⟨0, UINT64_MAX, .available⟩), by decide, rfl,
    by decide⟩, by decide +kernel, by decide +kernel⟩

end DxRt.MemoryService
