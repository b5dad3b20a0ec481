import DxRt.Lib.Tiling
import DxRt.Memory.Pool

/-! The representation invariant of the memory pool and one specification per operation.

    `PoolInv` says that the nodes tile `[0, size)`, that no two neighbours are both free and that
    the byte counter is the sum of the busy sizes. The abstract content of a pool is `blocks`: the
    start and size of every busy node. `allocate_spec`, `backwardAllocate_spec`,
    `deallocate_spec` and `compactMemory_eq` say what each operation does to both. -/

namespace DxRt.Memory
open MemoryConfig Tiling

/-! ### Rounding -/

/-- Masking off the low twelve bits of a 64-bit word. -/
theorem land_mask (x : ℕ) (hx : x < 2 ^ 64) : x &&& (2 ^ 64 - 4096) = x / 4096 * 4096 := by
  have hmask : (2 ^ 64 - 4096 : ℕ) = (2 ^ 52 - 1) <<< 12 := by decide
  have hmul : x / 4096 * 4096 = (x >>> 12) <<< 12 := by
    rw [Nat.shiftLeft_eq, Nat.shiftRight_eq_div_pow]
  rw [hmask, hmul]
  apply Nat.eq_of_testBit_eq
  intro i
  simp only [Nat.testBit_and, Nat.testBit_shiftLeft, Nat.testBit_shiftRight,
    Nat.testBit_two_pow_sub_one]
  by_cases hi : 12 ≤ i
  · have hsum : 12 + (i - 12) = i := by omega
    by_cases h64 : i < 64
    · have hlt : i - 12 < 52 := by omega
      simp [hi, hlt, hsum]
    · have hpow : x < 2 ^ i := lt_of_lt_of_le hx (Nat.pow_le_pow_right (by decide) (by omega))
      simp [Nat.testBit_lt_two_pow hpow, hsum]
  · simp [hi]

/-- `AlignSize` rounds the wrapped sum down to a multiple of the alignment. -/
theorem alignSize_eq (n : ℕ) : alignSize n = (n + 4095) % 2 ^ 64 / 4096 * 4096 := by
  rw [alignSize, MEMORY_ALIGNMENT, show n + 4096 - 1 = n + 4095 by omega]
  exact land_mask _ (Nat.mod_lt _ (by decide))

/-- Rounding up to a multiple of 4096. -/
def alignUp (n : ℕ) : ℕ := (n + 4095) / 4096 * 4096

theorem alignSize_of_lt {n : ℕ} (hn : n + 4095 < 2 ^ 64) : alignSize n = alignUp n := by
  rw [alignSize_eq, Nat.mod_eq_of_lt hn, alignUp]

theorem alignSize_dvd (n : ℕ) : 4096 ∣ alignSize n := by
  rw [alignSize_eq]; exact Dvd.intro_left _ rfl

theorem alignSize_pos {n : ℕ} (hpos : 1 ≤ n) (hn : n + 4095 < 2 ^ 64) : 0 < alignSize n := by
  rw [alignSize_of_lt hn, alignUp]; omega

/-- On a 64-bit size the rounding gives zero only for zero and for sizes whose sum wraps. -/
theorem alignSize_eq_zero {n : ℕ} (hn : n < 2 ^ 64) :
    alignSize n = 0 ↔ n = 0 ∨ 2 ^ 64 ≤ n + 4095 := by
  rw [alignSize_eq]; omega

/-! ### The invariant -/

def IsFree (e : PoolEntry) : Prop := e.2.status = .available

instance (e : PoolEntry) : Decidable (IsFree e) := inferInstanceAs (Decidable (_ = _))

/-- Two neighbours that `MergeAdjacentNodes` would not join. -/
def NotBothFree (x y : PoolEntry) : Prop := ¬ (IsFree x ∧ IsFree y)

instance (x y : PoolEntry) : Decidable (NotBothFree x y) := inferInstanceAs (Decidable (¬ _))

/-- What every single node satisfies in a pool of `size` bytes. -/
structure NodeOk (size : ℕ) (e : PoolEntry) : Prop where
  keyed : e.2.addr = e.1
  known : e.2.status ≠ .permanent
  aligned : 4096 ∣ size → 4096 ∣ e.1 ∧ 4096 ∣ e.2.size

/-- The nodes, in key order, tile `[0, size)`. -/
structure Layout (size : ℕ) (l : List PoolEntry) : Prop where
  node : ∀ e ∈ l, NodeOk size e
  tiles : Tiles Prod.fst (fun e : PoolEntry => e.2.size) 0 l size

/-- Start and size of the busy nodes of a node list. -/
def busyBlocks (l : List PoolEntry) : List (ℕ × ℕ) :=
  (l.filter (fun e => decide (¬ IsFree e))).map (fun e => (e.1, e.2.size))

/-- The allocated blocks of a pool, in address order. -/
def blocks (m : Memory) : List (ℕ × ℕ) := busyBlocks m.pool.entries

structure PoolInv (m : Memory) : Prop where
  bound : m.size < 2 ^ 64
  layout : Layout m.size m.pool.entries
  merged : m.pool.entries.IsChain NotBothFree
  used : m.usedSize = (m.blocks.map Prod.snd).sum

@[simp] theorem busyBlocks_append (l r : List PoolEntry) :
    busyBlocks (l ++ r) = busyBlocks l ++ busyBlocks r := by
  simp [busyBlocks]

@[simp] theorem busyBlocks_nil : busyBlocks [] = [] := rfl

theorem busyBlocks_cons_free {e : PoolEntry} (h : IsFree e) (l : List PoolEntry) :
    busyBlocks (e :: l) = busyBlocks l := by
  simp [busyBlocks, h]

theorem busyBlocks_cons_busy {e : PoolEntry} (h : ¬ IsFree e) (l : List PoolEntry) :
    busyBlocks (e :: l) = (e.1, e.2.size) :: busyBlocks l := by
  simp [busyBlocks, h]

theorem mem_busyBlocks {l : List PoolEntry} {a s : ℕ} :
    (a, s) ∈ busyBlocks l ↔ ∃ node, (a, node) ∈ l ∧ ¬ IsFree (a, node) ∧ node.size = s := by
  simp only [busyBlocks, List.mem_map, List.mem_filter, decide_eq_true_eq, Prod.mk.injEq]
  constructor
  · rintro ⟨⟨a', node⟩, ⟨hmem, hbusy⟩, rfl, rfl⟩; exact ⟨node, hmem, hbusy, rfl⟩
  · rintro ⟨node, hmem, hbusy, rfl⟩; exact ⟨(a, node), ⟨hmem, hbusy⟩, rfl, rfl⟩

theorem sum_free_busy : ∀ l : List PoolEntry,
    (l.map (fun e => e.2.size)).sum =
      ((l.filter (fun e => decide (IsFree e))).map (fun e => e.2.size)).sum +
        ((busyBlocks l).map Prod.snd).sum
  | [] => rfl
  | e :: l => by
    have hrec := sum_free_busy l
    by_cases h : IsFree e
    · simp only [List.map_cons, List.sum_cons, busyBlocks_cons_free h, hrec, h, decide_true,
        List.filter_cons_of_pos]
      omega
    · simp only [List.map_cons, List.sum_cons, busyBlocks_cons_busy h, hrec, h, decide_false,
        Bool.false_eq_true, not_false_eq_true, List.filter_cons_of_neg]
      omega

/-- In a pool a block determines its node. -/
theorem mem_blocks_iff {m : Memory} (h : PoolInv m) {a s : ℕ} :
    (a, s) ∈ m.blocks ↔ m.pool.find? a = some ⟨a, s, .busy⟩ := by
  rw [blocks, mem_busyBlocks, SortedMap.find?_eq_some]
  constructor
  · rintro ⟨⟨a', s', st⟩, hmem, hbusy, rfl⟩
    have hok := h.layout.node _ hmem
    obtain rfl : a' = a := hok.keyed
    cases st with
    | available => exact absurd rfl hbusy
    | busy => exact hmem
    | permanent => exact absurd rfl hok.known
  · exact fun hmem => ⟨_, hmem, by simp [IsFree], rfl⟩

/-- Blocks of a pool start at different addresses. -/
theorem blocks_nodup (m : Memory) : (m.blocks.map Prod.fst).Nodup := by
  rw [blocks, busyBlocks, List.map_map]
  exact m.pool.keys_nodup.sublist (List.Sublist.map Prod.fst List.filter_sublist)

/-- The busy bytes never exceed the pool. -/
theorem Layout.busy_le {size : ℕ} {l : List PoolEntry} (h : Layout size l) :
    ((busyBlocks l).map Prod.snd).sum ≤ size := by
  have hsum := h.tiles.sum_size
  have hfb := sum_free_busy l
  omega

variable {size : ℕ} {l r mid : List PoolEntry} {e : PoolEntry} {a : ℕ} {node : MemoryNode}

/-- Replacing a stretch of nodes by another stretch over the same interval keeps the layout. -/
theorem Layout.replace (mid' : List PoolEntry) (h : Layout size (l ++ mid ++ r))
    (hnode : ∀ x ∈ mid', NodeOk size x)
    (htiles : ∀ b c, Tiles Prod.fst (fun e : PoolEntry => e.2.size) b mid c →
      Tiles Prod.fst (fun e : PoolEntry => e.2.size) b mid' c) :
    Layout size (l ++ mid' ++ r) := by
  refine ⟨fun x hx => ?_, ?_⟩
  · rcases List.mem_append.mp hx with hx | hx
    · rcases List.mem_append.mp hx with hx | hx
      · exact h.node x (by simp [hx])
      · exact hnode x hx
    · exact h.node x (by simp [hx])
  · obtain ⟨c, hlm, hr⟩ := tiles_append.mp h.tiles
    obtain ⟨b, hl, hm⟩ := tiles_append.mp hlm
    exact tiles_append.mpr ⟨c, tiles_append.mpr ⟨b, hl, htiles b c hm⟩, hr⟩

theorem Layout.node_at (h : Layout size (l ++ e :: r)) : NodeOk size e :=
  h.node e (List.mem_append_right _ (List.mem_cons_self ..))

theorem Layout.span_at (h : Layout size (l ++ e :: r)) : 0 < e.2.size ∧ e.1 + e.2.size ≤ size := by
  obtain ⟨_, hpos, hle⟩ := h.tiles.bounds e (List.mem_append_right _ (List.mem_cons_self ..))
  exact ⟨hpos, hle⟩

/-- The merged condition around one node. -/
theorem isChain_split {α : Type*} {R : α → α → Prop} {l r : List α} {x : α} :
    (l ++ x :: r).IsChain R ↔
      l.IsChain R ∧ r.IsChain R ∧ (∀ p ∈ l.getLast?, R p x) ∧ (∀ q ∈ r.head?, R x q) := by
  rw [List.isChain_append, List.isChain_cons]
  constructor
  · rintro ⟨hl, ⟨hxr, hr⟩, hlx⟩
    exact ⟨hl, hr, fun p hp => hlx p hp x (by simp), hxr⟩
  · rintro ⟨hl, hr, hlx, hxr⟩
    refine ⟨hl, ⟨hxr, hr⟩, fun p hp y hy => ?_⟩
    obtain rfl : x = y := by simpa using hy
    exact hlx p hp

/-! ### Best fit and defragmentation -/

/-- A node a request of `required` bytes could be cut from. -/
def Candidate (required : ℕ) (e : PoolEntry) : Prop := IsFree e ∧ required ≤ e.2.size

/-- Scan invariant: the accumulator holds the first of the smallest candidates among `seen`, or
    nothing if there is no candidate below `UINT64_MAX`. -/
def BestOf (required : ℕ) (seen : List PoolEntry) : Option PoolEntry × ℕ → Prop
  | (none, s) => s = UINT64_MAX ∧ ∀ x ∈ seen, Candidate required x → UINT64_MAX ≤ x.2.size
  | (some e, s) => s = e.2.size ∧ e.2.size < UINT64_MAX ∧ Candidate required e ∧
      ∃ l₁ l₂, seen = l₁ ++ e :: l₂ ∧ (∀ x ∈ l₁, Candidate required x → e.2.size < x.2.size) ∧
        ∀ x ∈ l₂, Candidate required x → e.2.size ≤ x.2.size

theorem bestOf_step {required : ℕ} {seen : List PoolEntry} (x : PoolEntry) :
    ∀ {best : Option PoolEntry × ℕ}, BestOf required seen best →
      BestOf required (seen ++ [x]) (betterFit required best x)
  | (none, s), ⟨hs, hnone⟩ => by
    rw [betterFit]
    split_ifs with hc
    · refine ⟨rfl, hs ▸ hc.2.2, ⟨hc.1, hc.2.1⟩, seen, [], rfl, fun y hy hcand => ?_, by simp⟩
      exact lt_of_lt_of_le (hs ▸ hc.2.2) (hnone y hy hcand)
    · refine ⟨hs, fun y hy hcand => ?_⟩
      rcases List.mem_append.mp hy with hy | hy
      · exact hnone y hy hcand
      · obtain rfl := List.mem_singleton.mp hy
        by_contra hlt
        exact hc ⟨hcand.1, hcand.2, hs ▸ not_le.mp hlt⟩
  | (some e, s), ⟨hs, hmax, hcand, l₁, l₂, hseen, hbefore, hafter⟩ => by
    rw [betterFit]
    split_ifs with hc
    · have hlt : x.2.size < e.2.size := hs ▸ hc.2.2
      refine ⟨rfl, hlt.trans hmax, ⟨hc.1, hc.2.1⟩, seen, [], rfl, fun y hy hy' => ?_, by simp⟩
      rw [hseen] at hy
      rcases List.mem_append.mp hy with hy | hy
      · exact hlt.trans (hbefore y hy hy')
      · rcases List.mem_cons.mp hy with rfl | hy
        · exact hlt
        · exact lt_of_lt_of_le hlt (hafter y hy hy')
    · refine ⟨hs, hmax, hcand, l₁, l₂ ++ [x], by simp [hseen], hbefore, fun y hy hy' => ?_⟩
      rcases List.mem_append.mp hy with hy | hy
      · exact hafter y hy hy'
      · obtain rfl := List.mem_singleton.mp hy
        by_contra hlt
        exact hc ⟨hy'.1, hy'.2, hs ▸ not_le.mp hlt⟩

theorem bestOf_fold {required : ℕ} : ∀ (l seen : List PoolEntry) (best : Option PoolEntry × ℕ),
    BestOf required seen best → BestOf required (seen ++ l) (l.foldl (betterFit required) best)
  | [], seen, _, h => by simpa using h
  | x :: l, seen, best, h => by
    have hrec := bestOf_fold l (seen ++ [x]) _ (bestOf_step x h)
    simpa [List.append_assoc] using hrec

theorem bestOf_scan (required : ℕ) (l : List PoolEntry) :
    BestOf required l (l.foldl (betterFit required) (none, UINT64_MAX)) := by
  simpa using bestOf_fold l [] (none, UINT64_MAX) ⟨rfl, by simp⟩

theorem scanBestFit_some {required : ℕ} {l : List PoolEntry} {e : PoolEntry}
    (h : scanBestFit required l = some e) :
    e ∈ l ∧ Candidate required e ∧ e.2.size < UINT64_MAX := by
  have hbest := bestOf_scan required l
  rw [scanBestFit] at h
  rcases hacc : l.foldl (betterFit required) (none, UINT64_MAX) with ⟨o, s⟩
  rw [hacc] at h hbest
  subst h
  obtain ⟨_, hmax, hcand, l₁, l₂, rfl, _⟩ := hbest
  exact ⟨by simp, hcand, hmax⟩

theorem scanBestFit_none {required : ℕ} {l : List PoolEntry} (h : scanBestFit required l = none) :
    ∀ x ∈ l, Candidate required x → UINT64_MAX ≤ x.2.size := by
  have hbest := bestOf_scan required l
  rw [scanBestFit] at h
  rcases hacc : l.foldl (betterFit required) (none, UINT64_MAX) with ⟨o, s⟩
  rw [hacc] at h hbest
  subst h
  exact hbest.2

theorem firstMergeable_eq_none : ∀ {l : List PoolEntry}, l.IsChain NotBothFree →
    firstMergeable l = none
  | [], _ => rfl
  | [_], _ => rfl
  | x :: y :: l, h => by
    obtain ⟨hxy, hrest⟩ := List.isChain_cons_cons.mp h
    rw [firstMergeable, if_neg (fun hc => hxy ⟨hc.1, hc.2.1⟩)]
    exact firstMergeable_eq_none hrest

/-- On a merged pool the merge of all neighbours finds nothing to do. -/
theorem mergeAll_eq_self {pool : SortedMap ℕ MemoryNode} (h : pool.entries.IsChain NotBothFree) :
    ∀ fuel, mergeAllAdjacentFreeBlocks fuel pool = pool
  | 0 => rfl
  | fuel + 1 => by rw [mergeAllAdjacentFreeBlocks, firstMergeable_eq_none h]

theorem compactMemory_eq {m : Memory} (h : PoolInv m) : m.compactMemory = m := by
  rw [compactMemory, mergeAll_eq_self h.merged]

/-- On a merged pool the second attempt of a large request repeats the first. -/
theorem findWithDefragmentation_eq {m : Memory} (h : PoolInv m)
    (find : Memory → ℕ → Option PoolEntry) (required : ℕ) :
    findWithDefragmentation find m required = (m, find m required) := by
  rw [findWithDefragmentation]
  cases hfind : find m required with
  | some it => rfl
  | none =>
    simp only [tryDefragmentation, compactMemory_eq h, hfind]
    split_ifs <;> rfl

/-! ### Allocation -/

/-- What a successful allocation of `[addr, addr + required)` does to a pool: the range is cut out
    of a free node and becomes a block; the other blocks stay. -/
structure Carved (m : Memory) (addr required : ℕ) (m' : Memory) : Prop where
  inv : PoolInv m'
  size_eq : m'.size = m.size
  inside : ∃ e ∈ m.pool.entries, IsFree e ∧ e.1 ≤ addr ∧ addr + required ≤ e.1 + e.2.size
  blocks : m'.blocks.Perm ((addr, required) :: m.blocks)

/-- The neighbours of a free node are busy, so any merged stretch may take its place. -/
theorem isChain_replace {mid' : List PoolEntry} (hfree : IsFree e) (h : (l ++ e :: r).IsChain NotBothFree)
    (hmid : mid'.IsChain NotBothFree) : (l ++ mid' ++ r).IsChain NotBothFree := by
  obtain ⟨hl, hr, hle, her⟩ := isChain_split.mp h
  refine List.isChain_append.mpr ⟨List.isChain_append.mpr ⟨hl, hmid, ?_⟩, hr, ?_⟩
  · intro p hp q _ hc
    exact hle p hp ⟨hc.1, hfree⟩
  · intro p _ q hq hc
    exact her q hq ⟨hfree, hc.2⟩

variable {m m' : Memory} {addr required : ℕ}

/-- What may take the place of a free node: nodes over the same bytes, one of them busy. -/
structure IsCut (size : ℕ) (e : PoolEntry) (addr required : ℕ) (cut : List PoolEntry) : Prop where
  node : ∀ x ∈ cut, NodeOk size x
  tiles : Tiles Prod.fst (fun e : PoolEntry => e.2.size) e.1 cut (e.1 + e.2.size)
  merged : cut.IsChain NotBothFree
  busy : busyBlocks cut = [(addr, required)]
  inside : e.1 ≤ addr ∧ addr + required ≤ e.1 + e.2.size

/-- Putting a cut in place of a free node. -/
theorem carved_of_cut {cut : List PoolEntry} (h : PoolInv m) (hm : m.pool.entries = l ++ e :: r)
    (hfree : IsFree e) (hcut : IsCut m.size e addr required cut) (hsize : m'.size = m.size)
    (hm' : m'.pool.entries = l ++ cut ++ r)
    (hused : m'.usedSize = (m.usedSize + required) % 2 ^ 64) : Carved m addr required m' := by
  have hlay : Layout m.size (l ++ [e] ++ r) := by simpa [← hm] using h.layout
  have hlay' : Layout m'.size m'.pool.entries := by
    rw [hsize, hm']
    refine hlay.replace cut hcut.node fun b c hbc => ?_
    obtain ⟨rfl, _, rfl⟩ := hbc
    exact hcut.tiles
  have hblocks : m'.blocks.Perm ((addr, required) :: m.blocks) := by
    rw [Memory.blocks, Memory.blocks, hm, hm']
    simp only [busyBlocks_append, busyBlocks_cons_free hfree, hcut.busy, List.append_assoc,
      List.singleton_append]
    exact List.perm_middle
  have hsum : (m'.blocks.map Prod.snd).sum = required + (m.blocks.map Prod.snd).sum :=
    (hblocks.map Prod.snd).sum_eq
  refine ⟨⟨hsize ▸ h.bound, hlay', ?_, ?_⟩, hsize, ⟨e, by simp [hm], hfree, hcut.inside⟩, hblocks⟩
  · rw [hm']
    exact isChain_replace hfree (hm ▸ h.merged) hcut.merged
  · have hle : (m'.blocks.map Prod.snd).sum ≤ m'.size := hlay'.busy_le
    have hbound := h.bound
    rw [hused, h.used, Nat.mod_eq_of_lt (by omega)]
    omega

theorem nodeOk_cut {s' : ℕ} {st : Status} (haddr : 4096 ∣ size → 4096 ∣ a)
    (hs : 4096 ∣ size → 4096 ∣ s') (hst : st ≠ .permanent) :
    NodeOk size (a, ⟨a, s', st⟩) :=
  ⟨rfl, hst, fun hd => ⟨haddr hd, hs hd⟩⟩

/-- In a pool, the nodes before a node end below it and those after start where it ends. -/
theorem nodes_around (h : PoolInv m) (hm : m.pool.entries = l ++ (a, node) :: r) :
    (∀ x ∈ l, x.1 < a) ∧ ∀ x ∈ r, a + node.size ≤ x.1 := by
  refine ⟨(SortedMap.Sorted.split (hm ▸ m.pool.sorted)).1, fun x hx => ?_⟩
  have hpair := (hm ▸ h.layout.tiles.pairwise : (l ++ (a, node) :: r).Pairwise _)
  exact (List.pairwise_cons.mp (List.pairwise_append.mp hpair).2.1).1 x hx

/-- A node with its low end cut off for a block. -/
def cutLow (e : PoolEntry) (required : ℕ) : List PoolEntry :=
  if required < e.2.size then
    [(e.1, ⟨e.1, required, .busy⟩),
      (e.1 + required, ⟨e.1 + required, e.2.size - required, .available⟩)]
  else [(e.1, ⟨e.1, required, .busy⟩)]

/-- A node with its high end cut off for a block. -/
def cutHigh (e : PoolEntry) (required : ℕ) : List PoolEntry :=
  if required < e.2.size then
    [(e.1, ⟨e.1, e.2.size - required, .available⟩),
      (e.1 + (e.2.size - required), ⟨e.1 + (e.2.size - required), required, .busy⟩)]
  else [(e.1, ⟨e.1, required, .busy⟩)]

theorem isCut_whole (hok : NodeOk size e) (hpos : 0 < e.2.size) :
    IsCut size e e.1 e.2.size [(e.1, ⟨e.1, e.2.size, .busy⟩)] where
  node x hx := by
    rw [List.mem_singleton.mp hx]
    exact nodeOk_cut (fun hd => (hok.aligned hd).1) (fun hd => (hok.aligned hd).2) (by decide)
  tiles := ⟨rfl, hpos, rfl⟩
  merged := List.isChain_singleton _
  busy := rfl
  inside := ⟨le_refl _, le_refl _⟩

theorem isCut_low (hok : NodeOk size e) (hle : required ≤ e.2.size) (hpos : 0 < required)
    (hdvd : 4096 ∣ required) : IsCut size e e.1 required (cutLow e required) := by
  rw [cutLow]
  split_ifs with hcut
  · refine ⟨fun x hx => ?_, ⟨rfl, hpos, rfl, by simp only; omega, by simp only [tiles_nil]; omega⟩,
      List.isChain_cons_cons.mpr ⟨fun hc => absurd hc.1 (by simp [IsFree]), by simp⟩, rfl,
      le_refl _, by omega⟩
    rcases List.mem_cons.mp hx with rfl | hx
    · exact nodeOk_cut (fun hd => (hok.aligned hd).1) (fun _ => hdvd) (by decide)
    · rw [List.mem_singleton.mp hx]
      exact nodeOk_cut (fun hd => dvd_add (hok.aligned hd).1 hdvd)
        (fun hd => Nat.dvd_sub (hok.aligned hd).2 hdvd) (by decide)
  · obtain rfl : required = e.2.size := by omega
    exact isCut_whole hok hpos

theorem isCut_high (hok : NodeOk size e) (hle : required ≤ e.2.size) (hpos : 0 < required)
    (hdvd : 4096 ∣ required) :
    IsCut size e (e.1 + (e.2.size - required)) required (cutHigh e required) := by
  rw [cutHigh]
  split_ifs with hcut
  · refine ⟨fun x hx => ?_, ⟨rfl, by simp only; omega, rfl, hpos, by simp only [tiles_nil]; omega⟩,
      List.isChain_cons_cons.mpr ⟨fun hc => absurd hc.2 (by simp [IsFree]), by simp⟩, rfl,
      by omega, by omega⟩
    rcases List.mem_cons.mp hx with rfl | hx
    · exact nodeOk_cut (fun hd => (hok.aligned hd).1)
        (fun hd => Nat.dvd_sub (hok.aligned hd).2 hdvd) (by decide)
    · rw [List.mem_singleton.mp hx]
      exact nodeOk_cut (fun hd => dvd_add (hok.aligned hd).1 (Nat.dvd_sub (hok.aligned hd).2 hdvd))
        (fun _ => hdvd) (by decide)
  · obtain rfl : required = e.2.size := by omega
    rw [Nat.sub_self, Nat.add_zero]
    exact isCut_whole hok hpos

/-- A pool in which a cut has taken the place of a node between `l` and `r`. -/
structure CutAt (m : Memory) (l r : List PoolEntry) (required : ℕ) (cut : List PoolEntry)
    (m' : Memory) : Prop where
  entries : m'.pool.entries = l ++ cut ++ r
  size_eq : m'.size = m.size
  used : m'.usedSize = (m.usedSize + required) % 2 ^ 64

/-- The size `Allocate` works with: zero counts as 64, then the rounding. -/
def requestSize (n : ℕ) : ℕ := alignSize (if n = 0 then 64 else n)

theorem allocate_none (h : PoolInv m) {n : ℕ} (hfind : m.findBestFit (requestSize n) = none) :
    m.allocate n = (m, NEG1) := by
  rw [allocate, ← requestSize, findWithDefragmentation_eq h, hfind]

/-- The busy part of the cut goes to the low end of the node found. -/
theorem allocate_cut (h : PoolInv m) {n : ℕ} (hfind : m.findBestFit (requestSize n) = some e)
    (hm : m.pool.entries = l ++ e :: r) (hpos : 0 < requestSize n) :
    (m.allocate n).2 = e.1 ∧
      CutAt m l r (requestSize n) (cutLow e (requestSize n)) (m.allocate n).1 := by
  obtain ⟨a, node⟩ := e
  obtain ⟨-, ⟨-, hle⟩, -⟩ := scanBestFit_some hfind
  have hlay : Layout m.size (l ++ (a, node) :: r) := hm ▸ h.layout
  obtain ⟨-, hspan⟩ := hlay.span_at
  obtain ⟨hbefore, hafter⟩ := nodes_around h hm
  have hbound := h.bound
  obtain rfl : node.addr = a := hlay.node_at.keyed
  rw [allocate, ← requestSize, findWithDefragmentation_eq h, hfind]
  generalize requestSize n = req at *
  refine ⟨rfl, ?_, rfl, rfl⟩
  simp only at hle hspan ⊢
  rw [Nat.mod_eq_of_lt (by omega : node.addr + req < 2 ^ 64), cutLow]
  split_ifs with hcut
  · have hinsert := SortedMap.insert_between (m := m.pool) (l := l ++ [(node.addr, node)]) (r := r)
      (k := node.addr + req) (by simp [hm])
      (by
        intro x hx
        rcases List.mem_append.mp hx with hx | hx
        · have := hbefore x hx; omega
        · rw [List.mem_singleton.mp hx]; simp only; omega)
      (fun x hx => by have := hafter x hx; omega)
      ⟨node.addr + req, node.size - req, .available⟩
    rw [List.append_assoc, List.singleton_append] at hinsert
    simpa using SortedMap.insert_split hinsert ⟨node.addr, req, .busy⟩
  · simpa using SortedMap.insert_split hm ⟨node.addr, req, .busy⟩

theorem allocate_some (h : PoolInv m) {n : ℕ} (hfind : m.findBestFit (requestSize n) = some e)
    (hpos : 0 < requestSize n) :
    (m.allocate n).2 = e.1 ∧ Carved m e.1 (requestSize n) (m.allocate n).1 := by
  obtain ⟨hmem, ⟨hfree, hle⟩, _⟩ := scanBestFit_some hfind
  obtain ⟨l, r, hm⟩ := List.append_of_mem hmem
  obtain ⟨haddr, hcut⟩ := allocate_cut h hfind hm hpos
  have hok : NodeOk m.size e := h.layout.node e hmem
  exact ⟨haddr, carved_of_cut h hm hfree (isCut_low hok hle hpos (alignSize_dvd _)) hcut.size_eq
    hcut.entries hcut.used⟩

theorem backwardAllocate_none (h : PoolInv m) {n : ℕ}
    (hfind : m.findBestFitBackward (alignSize n) = none) : m.backwardAllocate n = (m, NEG1) := by
  rw [backwardAllocate, findWithDefragmentation_eq h, hfind]

/-- The busy part of the cut goes to the high end of the node found. -/
theorem backwardAllocate_cut (h : PoolInv m) {n : ℕ}
    (hfind : m.findBestFitBackward (alignSize n) = some e) (hm : m.pool.entries = l ++ e :: r)
    (hpos : 0 < alignSize n) :
    (m.backwardAllocate n).2 = e.1 + (e.2.size - alignSize n) ∧
      CutAt m l r (alignSize n) (cutHigh e (alignSize n)) (m.backwardAllocate n).1 := by
  obtain ⟨a, node⟩ := e
  obtain ⟨-, ⟨-, hle⟩, -⟩ := scanBestFit_some hfind
  have hlay : Layout m.size (l ++ (a, node) :: r) := hm ▸ h.layout
  obtain ⟨-, hspan⟩ := hlay.span_at
  obtain ⟨hbefore, hafter⟩ := nodes_around h hm
  have hbound := h.bound
  obtain rfl : node.addr = a := hlay.node_at.keyed
  rw [backwardAllocate, findWithDefragmentation_eq h, hfind]
  generalize alignSize n = req at *
  simp only at hle hspan ⊢
  rw [Nat.mod_eq_of_lt (by omega : node.addr + (node.size - req) < 2 ^ 64)]
  by_cases hcut : req < node.size
  · simp only [if_pos hcut]
    refine ⟨trivial, ?_, rfl, rfl⟩
    have hlow := SortedMap.insert_split hm ⟨node.addr, node.size - req, .available⟩
    rw [List.append_cons] at hlow
    have hinsert := SortedMap.insert_between hlow (k := node.addr + (node.size - req))
      (by
        intro x hx
        rcases List.mem_append.mp hx with hx | hx
        · have := hbefore x hx; omega
        · rw [List.mem_singleton.mp hx]; simp only; omega)
      (fun x hx => by have := hafter x hx; omega)
      ⟨node.addr + (node.size - req), req, .busy⟩
    rw [cutHigh, if_pos hcut]
    simpa using hinsert
  · simp only [if_neg hcut]
    refine ⟨by omega, ?_, rfl, rfl⟩
    rw [cutHigh, if_neg hcut]
    simpa using SortedMap.insert_split hm ⟨node.addr, req, .busy⟩

theorem backwardAllocate_some (h : PoolInv m) {n : ℕ}
    (hfind : m.findBestFitBackward (alignSize n) = some e) (hpos : 0 < alignSize n) :
    (m.backwardAllocate n).2 = e.1 + e.2.size - alignSize n ∧
      Carved m (e.1 + e.2.size - alignSize n) (alignSize n) (m.backwardAllocate n).1 := by
  obtain ⟨hmem, ⟨hfree, hle⟩, _⟩ := scanBestFit_some hfind
  rw [List.mem_reverse] at hmem
  obtain ⟨l, r, hm⟩ := List.append_of_mem hmem
  obtain ⟨haddr, hcut⟩ := backwardAllocate_cut h hfind hm hpos
  have hok : NodeOk m.size e := h.layout.node e hmem
  rw [Nat.add_sub_assoc hle]
  exact ⟨haddr, carved_of_cut h hm hfree (isCut_high hok hle hpos (alignSize_dvd _)) hcut.size_eq
    hcut.entries hcut.used⟩

/-! ### Deallocation -/

/-- `fuse` on two neighbours: their union, free, takes their place. -/
theorem fuse_entries {pool : SortedMap ℕ MemoryNode} {a b s : ℕ} {x y : MemoryNode}
    (h : pool.entries = l ++ (a, x) :: (b, y) :: r) :
    (fuse pool a b s).entries = l ++ (a, ⟨a, s, .available⟩) :: r := by
  obtain ⟨hl, hr⟩ := SortedMap.Sorted.split (h ▸ pool.sorted)
  have ha := SortedMap.erase_split h
  have hb := SortedMap.erase_split (m := pool.erase a) (k := b) (v := y) ha
  exact SortedMap.insert_between hb hl (fun e he => hr e (List.mem_cons_of_mem _ he)) _

/-- The union of two neighbouring nodes fits in their place. -/
theorem Layout.fuse {a b : ℕ} {x y : MemoryNode} (hsize : size < 2 ^ 64)
    (h : Layout size (l ++ (a, x) :: (b, y) :: r)) :
    Layout size (l ++ (a, ⟨a, (x.size + y.size) % 2 ^ 64, .available⟩) :: r) := by
  have hx := h.node_at
  have hy : NodeOk size (b, y) := h.node _ (by simp)
  obtain ⟨c, _, rfl, hxpos, hb, hypos, hr⟩ := tiles_append.mp h.tiles
  have hle := hr.le
  simp only at hxpos hb hypos hle
  subst hb
  rw [Nat.mod_eq_of_lt (by omega)]
  have hpair : Layout size (l ++ [(a, x), (a + x.size, y)] ++ r) := by simpa using h
  have hone := hpair.replace [(a, ⟨a, x.size + y.size, .available⟩)] ?_ ?_
  · simpa using hone
  · intro e he
    rw [List.mem_singleton.mp he]
    exact ⟨rfl, nofun, fun hd => ⟨(hx.aligned hd).1, dvd_add (hx.aligned hd).2 (hy.aligned hd).2⟩⟩
  · rintro b c ⟨rfl, _, _, _, rfl⟩
    exact ⟨rfl, by simp only; omega, by simp only [tiles_nil]; omega⟩

/-- What merging around a node leaves behind, given the busy nodes before and after it. -/
structure MergedAs (size : ℕ) (busy : List (ℕ × ℕ)) (l : List PoolEntry) : Prop where
  layout : Layout size l
  merged : l.IsChain NotBothFree
  blocks : busyBlocks l = busy

/-- Merging around a free node: the result is merged everywhere, covers the same interval and has
    the same busy nodes. Only the node's own neighbourhood may be unmerged before the call. -/
theorem mergeAdjacentNodes_spec (hsize : size < 2 ^ 64) : ∀ (fuel : ℕ)
    (pool : SortedMap ℕ MemoryNode) (l r : List PoolEntry) (x : PoolEntry),
    pool.entries.length ≤ fuel → pool.entries = l ++ x :: r → IsFree x →
    Layout size pool.entries → l.IsChain NotBothFree → r.IsChain NotBothFree →
    MergedAs size (busyBlocks l ++ busyBlocks r) (mergeAdjacentNodes fuel pool x.1).entries
  | 0, pool, l, r, x, hlen, hpool, _, _, _, _ => by
    rw [hpool] at hlen; simp at hlen
  | fuel + 1, pool, l, r, (k, x), hlen, hpool, hfree, hlay, hl, hr => by
    have hfind : pool.find? k = some x := (pool.find?_eq_some k x).mpr (by simp [hpool])
    rw [mergeAdjacentNodes, hfind, SortedMap.prev?_split hpool, SortedMap.next?_split hpool]
    rw [hpool] at hlen hlay
    -- with a busy predecessor, or none, only the successor can be joined
    have hnext : (∀ p ∈ l.getLast?, ¬ IsFree p) → MergedAs size (busyBlocks l ++ busyBlocks r)
        (match r.head? with
          | some (nextKey, next) =>
            if next.status = Status.available then
              mergeAdjacentNodes fuel (fuse pool k nextKey ((x.size + next.size) % 2 ^ 64)) k
            else pool
          | none => pool).entries := by
      intro hprev
      have hstop : (∀ q ∈ r.head?, ¬ IsFree q) →
          MergedAs size (busyBlocks l ++ busyBlocks r) pool.entries := by
        intro hq
        refine ⟨hpool ▸ hlay, hpool ▸ isChain_split.mpr ⟨hl, hr, ?_, ?_⟩, ?_⟩
        · exact fun p hp hc => hprev p hp hc.1
        · exact fun q hq' hc => hq q hq' hc.2
        · rw [hpool, busyBlocks_append, busyBlocks_cons_free hfree]
      cases r with
      | nil => exact hstop (by simp)
      | cons n r' =>
        obtain ⟨nk, n⟩ := n
        simp only [List.head?_cons]
        split_ifs with hn
        · have hent := fuse_entries (s := (x.size + n.size) % 2 ^ 64) hpool
          rw [busyBlocks_cons_free (show IsFree (nk, n) from hn)]
          refine mergeAdjacentNodes_spec hsize fuel _ l r' (k, ⟨k, _, .available⟩) ?_ hent rfl
            (hent ▸ Layout.fuse hsize hlay) hl (List.isChain_cons.mp hr).2
          rw [hent]; simp only [List.length_append, List.length_cons] at hlen ⊢; omega
        · exact hstop (by simpa [IsFree] using hn)
    rcases List.eq_nil_or_concat l with rfl | ⟨l', ⟨pk, p⟩, rfl⟩
    · exact hnext (by simp)
    · rw [List.concat_eq_append] at *
      rw [List.getLast?_concat] at hnext ⊢
      simp only
      split_ifs with hp
      · rw [List.append_assoc, List.singleton_append] at hpool hlay
        have hent := fuse_entries (s := (p.size + x.size) % 2 ^ 64) hpool
        rw [busyBlocks_append, busyBlocks_cons_free (show IsFree (pk, p) from hp), busyBlocks_nil,
          List.append_nil]
        refine mergeAdjacentNodes_spec hsize fuel _ l' r (pk, ⟨pk, _, .available⟩) ?_ hent rfl
          (hent ▸ Layout.fuse hsize hlay) (List.isChain_append.mp hl).1 hr
        rw [hent]; simp only [List.length_append, List.length_cons, List.length_nil] at hlen ⊢; omega
      · exact hnext (by simpa [IsFree] using hp)

/-- Freeing a busy node: the block disappears, everything else is as before. -/
theorem deallocate_spec (h : PoolInv m) {s : ℕ} (ha : (addr, s) ∈ m.blocks) :
    PoolInv (m.deallocate addr) ∧ (m.deallocate addr).size = m.size ∧
      m.blocks.Perm ((addr, s) :: (m.deallocate addr).blocks) := by
  obtain ⟨node, hmem, hbusy, rfl⟩ := mem_busyBlocks.mp ha
  obtain ⟨l, r, hm⟩ := List.append_of_mem hmem
  have hfind : m.pool.find? addr = some node := (m.pool.find?_eq_some _ _).mpr hmem
  have hset := SortedMap.insert_split hm { node with status := .available }
  have hlay : Layout m.size (l ++ (addr, node) :: r) := hm ▸ h.layout
  have hlay' : Layout m.size (l ++ (addr, { node with status := .available }) :: r) := by
    have hok := hlay.node_at
    have hone : Layout m.size (l ++ [(addr, node)] ++ r) := by simpa using hlay
    have := hone.replace [(addr, { node with status := .available })] (fun e he => by
      rw [List.mem_singleton.mp he]; exact ⟨hok.keyed, nofun, hok.aligned⟩) (fun _ _ ht => ht)
    simpa using this
  obtain ⟨hl, hr, _, _⟩ := isChain_split.mp (hm ▸ h.merged)
  have hmerge := mergeAdjacentNodes_spec h.bound _ _ l r (addr, { node with status := .available })
    (le_refl _) hset rfl (hset ▸ hlay') hl hr
  have hblocks : m.blocks.Perm ((addr, node.size) :: (busyBlocks l ++ busyBlocks r)) := by
    rw [blocks, hm, busyBlocks_append, busyBlocks_cons_busy hbusy]
    exact List.perm_middle
  have hsum : (m.blocks.map Prod.snd).sum
      = node.size + ((busyBlocks l ++ busyBlocks r).map Prod.snd).sum := (hblocks.map Prod.snd).sum_eq
  have hle : (m.blocks.map Prod.snd).sum ≤ m.size := h.layout.busy_le
  have hbound := h.bound
  have hresult : (m.deallocate addr).blocks = busyBlocks l ++ busyBlocks r := by
    rw [deallocate, hfind]; exact hmerge.blocks
  refine ⟨⟨?_, ?_, ?_, ?_⟩, ?_, hresult ▸ hblocks⟩
  · rw [deallocate, hfind]; exact h.bound
  · rw [deallocate, hfind]; exact hmerge.layout
  · rw [deallocate, hfind]; exact hmerge.merged
  · rw [hresult, deallocate, hfind]
    simp only [h.used, hsum]
    rw [show node.size + ((busyBlocks l ++ busyBlocks r).map Prod.snd).sum + 2 ^ 64 - node.size
      = ((busyBlocks l ++ busyBlocks r).map Prod.snd).sum + 2 ^ 64 by omega,
      Nat.add_mod_right, Nat.mod_eq_of_lt (by omega)]
  · rw [deallocate, hfind]

end DxRt.Memory
