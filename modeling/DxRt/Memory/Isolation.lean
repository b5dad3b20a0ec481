import DxRt.Memory.Ownership

/-! Runs of the memory service of one device.

    An allocation keeps the ownership invariant unless its rounded size is zero and a free node is
    there to cut the empty block from (`Sound`). Every other operation keeps it with any argument,
    so isolation between processes holds in every state a run of sound calls reaches. A size that
    wraps when it is rounded breaks it. -/

namespace DxRt.MemoryService
open Memory MemoryConfig

/-! ### Allocation -/

/-- There is a free node that a request of rounded size zero is cut from. -/
def ZeroFits (m : Memory) : Prop := ∃ e ∈ m.pool.entries, IsFree e ∧ e.2.size < UINT64_MAX

instance (m : Memory) : Decidable (ZeroFits m) := inferInstanceAs (Decidable (∃ e ∈ _, _))

/-- The two outcomes of an allocation from a pool. -/
def Allocated (m : Memory) (r : Memory × ℕ) : Prop :=
  r = (m, NEG1) ∨ ∃ required, 0 < required ∧ Carved m r.2 required r.1

theorem scanBestFit_zero {m : Memory} (hz : ¬ ZeroFits m) {l : List PoolEntry}
    (hl : ∀ e ∈ l, e ∈ m.pool.entries) (required : ℕ) : scanBestFit required l = none := by
  cases hfind : scanBestFit required l with
  | none => rfl
  | some e =>
    obtain ⟨hmem, hcand, hmax⟩ := scanBestFit_some hfind
    exact absurd ⟨e, hl e hmem, hcand.1, hmax⟩ hz

theorem allocate_allocated {m : Memory} (h : PoolInv m) {n : ℕ}
    (hn : requestSize n ≠ 0 ∨ ¬ ZeroFits m) : Allocated m (m.allocate n) := by
  cases hfind : m.findBestFit (requestSize n) with
  | none => exact Or.inl (allocate_none h hfind)
  | some e =>
    rcases hn with hn | hz
    · obtain ⟨haddr, hc⟩ := allocate_some h hfind (Nat.pos_of_ne_zero hn)
      exact Or.inr ⟨_, Nat.pos_of_ne_zero hn, haddr ▸ hc⟩
    · have hnone := scanBestFit_zero hz (fun _ he => he) (requestSize n)
      exact absurd (hnone.symm.trans hfind) nofun

theorem backwardAllocate_allocated {m : Memory} (h : PoolInv m) {n : ℕ}
    (hn : alignSize n ≠ 0 ∨ ¬ ZeroFits m) : Allocated m (m.backwardAllocate n) := by
  cases hfind : m.findBestFitBackward (alignSize n) with
  | none => exact Or.inl (backwardAllocate_none h hfind)
  | some e =>
    rcases hn with hn | hz
    · obtain ⟨haddr, hc⟩ := backwardAllocate_some h hfind (Nat.pos_of_ne_zero hn)
      exact Or.inr ⟨_, Nat.pos_of_ne_zero hn, haddr ▸ hc⟩
    · have hnone := scanBestFit_zero hz (fun _ he => List.mem_reverse.mp he) (alignSize n)
      exact absurd (hnone.symm.trans hfind) nofun

/-- What a successful allocation at `a` for `o` does. -/
structure Granted (s : MemoryService) (o : Owner) (a : ℕ) (s' : MemoryService) : Prop where
  owned : Owned s'
  size_eq : s'.mem.size = s.mem.size
  fresh : ∀ o', ¬ s.Owns o' a
  kept : ∀ b ∈ s.mem.blocks, b ∈ s'.mem.blocks
  recorded : ∀ o' a', s'.Owns o' a' ↔ s.Owns o' a' ∨ o' = o ∧ a' = a

/-- A block cut from a free node starts where no other block does. -/
theorem Carved.fresh {m m' : Memory} {a required : ℕ} (h : Carved m a required m') :
    a ∉ m.blocks.map Prod.fst := by
  have hnd : ((a, required) :: m.blocks).map Prod.fst |>.Nodup :=
    (h.blocks.map Prod.fst).nodup_iff.mp m'.blocks_nodup
  rw [List.map_cons, List.nodup_cons] at hnd
  exact hnd.1

theorem Owned.granted {s s' : MemoryService} (h : Owned s) {o : Owner} {a required : ℕ}
    (hc : Carved s.mem a required s'.mem)
    (hrec : ∀ o' a', s'.Owns o' a' ↔ s.Owns o' a' ∨ o' = o ∧ a' = a) : Granted s o a s' := by
  have hfresh : ∀ o', ¬ s.Owns o' a := fun o' ho =>
    Carved.fresh hc ((h.exact a).mp ⟨o', ho⟩)
  have hstarts : ∀ x, x ∈ s'.mem.blocks.map Prod.fst ↔ x = a ∨ x ∈ s.mem.blocks.map Prod.fst := by
    intro x
    rw [(hc.blocks.map Prod.fst).mem_iff, List.map_cons, List.mem_cons]
  refine ⟨⟨hc.inv, fun x => ?_, fun o₁ o₂ x h₁ h₂ => ?_⟩, hc.size_eq, hfresh, fun b hb => ?_, hrec⟩
  · rw [hstarts, ← h.exact]
    constructor
    · rintro ⟨o', ho'⟩
      rcases (hrec o' x).mp ho' with ho' | ⟨_, rfl⟩
      · exact Or.inr ⟨o', ho'⟩
      · exact Or.inl rfl
    · rintro (rfl | ⟨o', ho'⟩)
      · exact ⟨o, (hrec o x).mpr (Or.inr ⟨rfl, rfl⟩)⟩
      · exact ⟨o', (hrec o' x).mpr (Or.inl ho')⟩
  · rcases (hrec o₁ x).mp h₁ with h₁ | ⟨rfl, rfl⟩ <;> rcases (hrec o₂ x).mp h₂ with h₂ | ⟨rfl, h₂⟩
    · exact h.unique o₁ o₂ x h₁ h₂
    · exact absurd (h₂ ▸ h₁) (hfresh o₁)
    · exact absurd h₂ (hfresh o₂)
    · rfl
  · exact hc.blocks.mem_iff.mpr (List.mem_cons_of_mem _ hb)

/-- Either the request is refused and nothing changes, or a fresh block is recorded for `o`. -/
theorem allocateWith_spec {s : MemoryService} (h : Owned s) {alloc : Memory → ℕ → Memory × ℕ}
    {track : MemoryService → ℕ → MemoryService} {o : Owner} {n : ℕ}
    (halloc : s.admits n = true → Allocated s.mem (alloc s.mem n))
    (hmem : ∀ s a, (track s a).mem = s.mem)
    (htrack : ∀ s a o' a', (track s a).Owns o' a' ↔ s.Owns o' a' ∨ o' = o ∧ a' = a) :
    s.allocateWith alloc track n = (s, NEG1) ∨
      Granted s o (s.allocateWith alloc track n).2 (s.allocateWith alloc track n).1 := by
  rw [allocateWith]
  by_cases hadm : s.admits n = true
  · rw [if_pos hadm]
    rcases halloc hadm with hr | ⟨required, hpos, hc⟩
    · simp [hr]
    · have hne : (alloc s.mem n).2 ≠ NEG1 := (Carved.addr_lt h.pool hc hpos).ne
      refine Or.inr ?_
      simp only [if_pos hne]
      have hc' : Carved s.mem (alloc s.mem n).2 required
          (track { s with mem := (alloc s.mem n).1 } (alloc s.mem n).2).mem := by
        rw [hmem]
        exact hc
      exact h.granted hc' fun o' a' => htrack _ _ o' a'
  · rw [if_neg hadm]
    exact Or.inl rfl

/-! ### Runs -/

/-- The call does not cut a block of rounded size zero. -/
def Sound (s : MemoryService) : Op → Prop
  | .allocate size _ | .allocateForTask size _ _ =>
    s.admits size = true → requestSize size ≠ 0 ∨ ¬ ZeroFits s.mem
  | .backwardAllocate size _ | .backwardAllocateForTask size _ _ =>
    s.admits size = true → alignSize size ≠ 0 ∨ ¬ ZeroFits s.mem
  | _ => True

/-- The process that makes a deallocation. -/
def Op.deallocator : Op → Option ℤ
  | .deallocateAddress _ pid | .deallocateTask pid _ | .deallocateAll pid
  | .deallocateAllTasks pid | .deallocateAllForProcess pid => some pid
  | _ => none

/-- Every deallocation frees some of the blocks of the process that makes it. -/
theorem exec_freed {s : MemoryService} (h : Owned s) {op : Op} {pid : ℤ}
    (hop : op.deallocator = some pid) :
    ∃ gone, gone ⊆ s.addrsOfAll (Owner.allOf pid) ∧ Freed s gone (s.exec op) := by
  cases op with
  | deallocateAddress a p =>
    obtain rfl : p = pid := Option.some.inj hop
    by_cases ho : ∃ o ∈ Owner.allOf p, s.Owns o a
    · obtain ⟨o, rfl, howns⟩ := ho
      refine ⟨{a}, ?_, (deallocateAddress_owned h howns).2⟩
      rintro _ rfl
      exact ⟨o, rfl, howns⟩
    · refine ⟨∅, Set.empty_subset _, ?_⟩
      rw [exec, deallocateAddress_foreign fun o hpid howns => ho ⟨o, hpid, howns⟩]
      exact h.unchanged fun a ha => absurd ha (Set.notMem_empty a)
  | deallocateTask p t =>
    obtain rfl : p = pid := Option.some.inj hop
    refine ⟨_, ?_, deallocateTask_freed h p t⟩
    rintro a ⟨o, rfl, ho⟩
    exact ⟨_, rfl, ho⟩
  | deallocateAllTasks p =>
    obtain rfl : p = pid := Option.some.inj hop
    refine ⟨_, ?_, deallocateAllTasks_freed h p⟩
    rintro a ⟨_, ⟨t, rfl⟩, ho⟩
    exact ⟨_, rfl, ho⟩
  | deallocateAll p =>
    obtain rfl : p = pid := Option.some.inj hop
    exact ⟨_, subset_rfl, deallocateAll_freed h p⟩
  | deallocateAllForProcess p =>
    obtain rfl : p = pid := Option.some.inj hop
    exact ⟨_, subset_rfl, deallocateAll_freed h p⟩
  | allocate | backwardAllocate | allocateForTask | backwardAllocateForTask | optimizeMemory =>
    exact absurd hop nofun

theorem allocate_spec {s : MemoryService} (h : Owned s) {n : ℕ} {pid : ℤ}
    (hn : s.Sound (.allocate n pid)) : s.allocate n pid = (s, NEG1) ∨
      Granted s (.legacy pid) (s.allocate n pid).2 (s.allocate n pid).1 :=
  allocateWith_spec h (fun hadm => allocate_allocated h.pool (hn hadm)) (fun _ _ => rfl)
    fun s a => owns_trackLegacy s pid a

theorem backwardAllocate_spec {s : MemoryService} (h : Owned s) {n : ℕ} {pid : ℤ}
    (hn : s.Sound (.backwardAllocate n pid)) : s.backwardAllocate n pid = (s, NEG1) ∨
      Granted s (.legacy pid) (s.backwardAllocate n pid).2 (s.backwardAllocate n pid).1 :=
  allocateWith_spec h (fun hadm => backwardAllocate_allocated h.pool (hn hadm)) (fun _ _ => rfl)
    fun s a => owns_trackLegacy s pid a

theorem allocateForTask_spec {s : MemoryService} (h : Owned s) {n : ℕ} {pid taskId : ℤ}
    (hn : s.Sound (.allocateForTask n pid taskId)) : s.allocateForTask n pid taskId = (s, NEG1) ∨
      Granted s (.task pid taskId) (s.allocateForTask n pid taskId).2
        (s.allocateForTask n pid taskId).1 :=
  allocateWith_spec h (fun hadm => allocate_allocated h.pool (hn hadm)) (fun _ _ => rfl)
    fun s a => owns_trackTask s pid taskId a

theorem backwardAllocateForTask_spec {s : MemoryService} (h : Owned s) {n : ℕ} {pid taskId : ℤ}
    (hn : s.Sound (.backwardAllocateForTask n pid taskId)) :
    s.backwardAllocateForTask n pid taskId = (s, NEG1) ∨
      Granted s (.task pid taskId) (s.backwardAllocateForTask n pid taskId).2
        (s.backwardAllocateForTask n pid taskId).1 :=
  allocateWith_spec h (fun hadm => backwardAllocate_allocated h.pool (hn hadm)) (fun _ _ => rfl)
    fun s a => owns_trackTask s pid taskId a

theorem optimizeMemory_eq {s : MemoryService} (h : Owned s) : s.optimizeMemory = s := by
  rw [optimizeMemory, compactMemory_eq h.pool]
  split_ifs <;> rfl

/-- A sound call keeps the ownership invariant and the size of the device memory. -/
theorem exec_owned {s : MemoryService} (h : Owned s) {op : Op} (hop : s.Sound op) :
    Owned (s.exec op) ∧ (s.exec op).mem.size = s.mem.size := by
  have hgrant : ∀ {o : Owner} {r : MemoryService × ℕ}, r = (s, NEG1) ∨ Granted s o r.2 r.1 →
      Owned r.1 ∧ r.1.mem.size = s.mem.size := by
    rintro o r (rfl | hg)
    · exact ⟨h, rfl⟩
    · exact ⟨hg.owned, hg.size_eq⟩
  have hfree : ∀ {pid : ℤ}, op.deallocator = some pid →
      Owned (s.exec op) ∧ (s.exec op).mem.size = s.mem.size := by
    intro pid hpid
    obtain ⟨_, _, hf⟩ := exec_freed h hpid
    exact ⟨hf.owned, hf.size_eq⟩
  cases op with
  | allocate n pid => exact hgrant (allocate_spec h hop)
  | backwardAllocate n pid => exact hgrant (backwardAllocate_spec h hop)
  | allocateForTask n pid t => exact hgrant (allocateForTask_spec h hop)
  | backwardAllocateForTask n pid t => exact hgrant (backwardAllocateForTask_spec h hop)
  | deallocateAddress | deallocateTask | deallocateAll | deallocateAllTasks
  | deallocateAllForProcess => exact hfree rfl
  | optimizeMemory =>
    rw [exec, optimizeMemory_eq h]
    exact ⟨h, rfl⟩

theorem owned_ofInfo {memSize : ℕ} (hpos : 0 < memSize) (hlt : memSize < 2 ^ 64) :
    Owned (ofInfo memSize) := by
  have hblocks : (ofInfo memSize).mem.blocks = [] := rfl
  have hno : ∀ o a, ¬ (ofInfo memSize).Owns o a := by
    intro o a
    cases o <;> simp [Owns, addrsOf, ofInfo]
  exact ⟨poolInv_ofInfo hpos hlt, fun a => by simp [hblocks, hno], fun o _ a ho => absurd ho (hno o a)⟩

/-- `Owned`, with the size of the device memory. -/
structure RunOwned (memSize : ℕ) (s : MemoryService) : Prop where
  owned : Owned s
  size_eq : s.mem.size = memSize

/-- One call of any process, subject to `ok`. -/
def Step (ok : MemoryService → Op → Prop) (s t : MemoryService) : Prop :=
  ∃ op, ok s op ∧ t = s.exec op

theorem runOwned_step {memSize : ℕ} {ok : MemoryService → Op → Prop}
    (hok : ∀ s op, RunOwned memSize s → ok s op → s.Sound op) (s t : MemoryService)
    (hst : Step ok s t) (h : RunOwned memSize s) : RunOwned memSize t := by
  obtain ⟨op, hop, rfl⟩ := hst
  obtain ⟨howned, hsize⟩ := exec_owned h.owned (hok s op h hop)
  exact ⟨howned, hsize.trans h.size_eq⟩

/-- Every state of a run of sound calls on a fresh device keeps the invariant. -/
theorem run_owned {memSize : ℕ} (hpos : 0 < memSize) (hlt : memSize < 2 ^ 64)
    {ok : MemoryService → Op → Prop}
    (hok : ∀ s op, RunOwned memSize s → ok s op → s.Sound op) {s : MemoryService}
    (hrun : Relation.ReflTransGen (Step ok) (ofInfo memSize) s) : RunOwned memSize s :=
  Run.invariant (runOwned_step hok) hrun ⟨owned_ofInfo hpos hlt, rfl⟩

/-! ### Isolation -/

/-- The byte size asked for by an allocation. -/
def Op.size? : Op → Option ℕ
  | .allocate size _ | .backwardAllocate size _
  | .allocateForTask size _ _ | .backwardAllocateForTask size _ _ => some size
  | _ => none

/-- Allocation sizes are positive 64-bit numbers; rounding them up, or the device memory, to whole
    pages does not leave 64 bits. -/
def SizesOk (memSize : ℕ) (_ : MemoryService) (op : Op) : Prop :=
  ∀ n, op.size? = some n → 1 ≤ n ∧ n < 2 ^ 64 ∧ (n + 4095 < 2 ^ 64 ∨ memSize + 4095 < 2 ^ 64)

/-- An admitted request above the threshold fits into the device memory. -/
theorem admits_le {s : MemoryService} (h : Owned s) {n : ℕ} (hadm : s.admits n = true)
    (hlarge : LARGE_ALLOCATION_THRESHOLD < n) : n ≤ s.mem.size := by
  have hcan : s.mem.canAllocateContiguous n = true := by
    simpa [admits, hlarge] using hadm
  obtain ⟨e, he, hfit⟩ := List.any_eq_true.mp hcan
  obtain ⟨_, hle⟩ := of_decide_eq_true hfit
  have hbounds := h.pool.layout.tiles.bounds e he
  omega

theorem sizesOk_sound {memSize : ℕ} (s : MemoryService) (op : Op) (h : RunOwned memSize s)
    (hop : SizesOk memSize s op) : s.Sound op := by
  have hpos : ∀ n, op.size? = some n → s.admits n = true → alignSize n ≠ 0 := by
    intro n hn hadm
    obtain ⟨h1, hlt, hwrap⟩ := hop n hn
    have hnowrap : n + 4095 < 2 ^ 64 := by
      rcases hwrap with hwrap | hwrap
      · exact hwrap
      · by_contra hge
        have hle := admits_le h.owned hadm (by simp only [LARGE_ALLOCATION_THRESHOLD]; omega)
        rw [h.size_eq] at hle
        omega
    exact (alignSize_pos h1 hnowrap).ne'
  have hreq : ∀ n, op.size? = some n → s.admits n = true → requestSize n ≠ 0 := by
    intro n hn hadm
    have hne : n ≠ 0 := by have := (hop n hn).1; omega
    rw [requestSize, if_neg hne]
    exact hpos n hn hadm
  cases op with
  | allocate n | allocateForTask n => exact fun hadm => Or.inl (hreq n rfl hadm)
  | backwardAllocate n | backwardAllocateForTask n => exact fun hadm => Or.inl (hpos n rfl hadm)
  | deallocateAddress | deallocateTask | deallocateAll | deallocateAllTasks
  | deallocateAllForProcess | optimizeMemory => trivial

/-- `s'` is `s` without the busy nodes at `gone` and without their records. -/
structure FreesExactly (s : MemoryService) (gone : Set ℕ) (s' : MemoryService) : Prop where
  nodes : ∀ a size, s'.mem.pool.find? a = some ⟨a, size, .busy⟩ ↔
    s.mem.pool.find? a = some ⟨a, size, .busy⟩ ∧ a ∉ gone
  records : ∀ o a, s'.Owns o a ↔ s.Owns o a ∧ a ∉ gone

theorem Freed.exactly {s s' : MemoryService} {gone : Set ℕ} (hs : Owned s) (h : Freed s gone s') :
    FreesExactly s gone s' := by
  refine ⟨fun a size => ?_, h.recorded⟩
  rw [← mem_blocks_iff h.owned.pool, h.blocks, mem_blocks_iff hs.pool]

/-- What isolation between processes means in one state. -/
structure Isolated (s : MemoryService) : Prop where
  /-- The recorded addresses are the busy nodes. -/
  exact : ∀ a, (∃ o, s.Owns o a) ↔ ∃ size, s.mem.pool.find? a = some ⟨a, size, .busy⟩
  busy : ∀ a node, s.mem.pool.find? a = some node → node.status ≠ .available →
    node = ⟨a, node.size, .busy⟩
  /-- Each under one owner. -/
  unique : ∀ o o' a, s.Owns o a → s.Owns o' a → o = o'
  /-- A deallocation by one process leaves the blocks of the others alone. -/
  foreign : ∀ (op : Op) pid, op.deallocator = some pid → ∀ o a, o.pid ≠ pid → s.Owns o a →
    (s.exec op).Owns o a ∧ (s.exec op).mem.pool.find? a = s.mem.pool.find? a
  task : ∀ pid taskId, FreesExactly s {a | s.Owns (.task pid taskId) a}
    (s.deallocateTask pid taskId).1
  process : ∀ pid, FreesExactly s {a | ∃ o, o.pid = pid ∧ s.Owns o a}
    (s.deallocateAllForProcess pid).1
  all : ∀ pid, FreesExactly s {a | ∃ o, o.pid = pid ∧ s.Owns o a} (s.deallocateAll pid)
  /-- An address of the caller is freed, with nothing else. -/
  address : ∀ o a, s.Owns o a → (s.deallocateAddress a o.pid).2 = true ∧
    FreesExactly s {a} (s.deallocateAddress a o.pid).1
  /-- What a deallocation has freed is not freed again, by anyone. -/
  twice : ∀ (op : Op) pid, op.deallocator = some pid → ∀ o a, s.Owns o a →
    ¬ (s.exec op).Owns o a → ∀ pid', (s.exec op).deallocateAddress a pid' = (s.exec op, false)
  /-- An address that is not the caller's is refused. -/
  refused : ∀ a pid, (∀ o : Owner, o.pid = pid → ¬ s.Owns o a) →
    s.deallocateAddress a pid = (s, false)

theorem starts_iff {m : Memory} (h : PoolInv m) (a : ℕ) :
    a ∈ m.blocks.map Prod.fst ↔ ∃ size, m.pool.find? a = some ⟨a, size, .busy⟩ := by
  rw [List.mem_map]
  constructor
  · rintro ⟨⟨_, size⟩, hmem, rfl⟩
    exact ⟨size, (mem_blocks_iff h).mp hmem⟩
  · rintro ⟨size, hfind⟩
    exact ⟨(a, size), (mem_blocks_iff h).mpr hfind, rfl⟩

theorem Owned.foreign {s : MemoryService} (h : Owned s) {op : Op} {pid : ℤ}
    (hop : op.deallocator = some pid) {o : Owner} {a : ℕ} (hpid : o.pid ≠ pid)
    (ho : s.Owns o a) :
    (s.exec op).Owns o a ∧ (s.exec op).mem.pool.find? a = s.mem.pool.find? a := by
  obtain ⟨gone, hgone, hf⟩ := exec_freed h hop
  have hna : a ∉ gone := by
    intro ha
    obtain ⟨o', hpid', ho'⟩ := hgone ha
    exact hpid (h.unique o o' a ho ho' ▸ hpid')
  obtain ⟨size, hfind⟩ := (starts_iff h.pool a).mp ((h.exact a).mp ⟨o, ho⟩)
  refine ⟨(hf.recorded o a).mpr ⟨ho, hna⟩, ?_⟩
  rw [hfind]
  exact (mem_blocks_iff hf.owned.pool).mp
    ((hf.blocks _).mpr ⟨(mem_blocks_iff h.pool).mpr hfind, hna⟩)

theorem Owned.twice {s : MemoryService} (h : Owned s) {op : Op} {pid : ℤ}
    (hop : op.deallocator = some pid) {o : Owner} {a : ℕ} (ho : s.Owns o a)
    (hgone : ¬ (s.exec op).Owns o a) (pid' : ℤ) :
    (s.exec op).deallocateAddress a pid' = (s.exec op, false) := by
  obtain ⟨gone, _, hf⟩ := exec_freed h hop
  have ha : a ∈ gone := by
    by_contra hna
    exact hgone ((hf.recorded o a).mpr ⟨ho, hna⟩)
  exact deallocateAddress_foreign fun o' _ ho' => ((hf.recorded o' a).mp ho').2 ha

theorem addrsOfAll_singleton (s : MemoryService) (o : Owner) :
    s.addrsOfAll {o} = {a | s.Owns o a} := by
  ext a
  simp [addrsOfAll]

theorem Owned.isolated {s : MemoryService} (h : Owned s) : Isolated s where
  exact a := (h.exact a).trans (starts_iff h.pool a)
  busy a node hfind hne := by
    have hmem := (s.mem.pool.find?_eq_some _ _).mp hfind
    have hblock : (a, node.size) ∈ s.mem.blocks := mem_busyBlocks.mpr ⟨node, hmem, hne, rfl⟩
    exact Option.some.inj (hfind.symm.trans ((mem_blocks_iff h.pool).mp hblock))
  unique := h.unique
  foreign _ _ hop _ _ hpid ho := h.foreign hop hpid ho
  task pid taskId :=
    addrsOfAll_singleton s _ ▸ (deallocateTask_freed h pid taskId).exactly h
  process pid := (deallocateAll_freed h pid).exactly h
  all pid := (deallocateAll_freed h pid).exactly h
  address _ _ ho :=
    ⟨(deallocateAddress_owned h ho).1, (deallocateAddress_owned h ho).2.exactly h⟩
  twice _ _ hop _ _ ho hgone pid' := h.twice hop ho hgone pid'
  refused _ _ hno := deallocateAddress_foreign hno

/-- In every state of one device's memory service, whatever the processes call it with, the
    registries and the pool agree and no process can touch another one's memory, unless a size wraps
    when it is rounded. -/
theorem ownership_isolation {memSize : ℕ} (hpos : 0 < memSize) (hlt : memSize < 2 ^ 64)
    {s : MemoryService}
    (hrun : Relation.ReflTransGen (Step (SizesOk memSize)) (ofInfo memSize) s) : Isolated s :=
  (run_owned hpos hlt sizesOk_sound hrun).owned.isolated

/-- Two processes on a device of four pages; the second one frees an address of the first. -/
theorem ownership_isolation_two_processes : ∃ s : MemoryService,
    Relation.ReflTransGen (Step (SizesOk 16384)) (ofInfo 16384) s ∧
      s.Owns (.task 1 0) 0 ∧ s.Owns (.legacy 2) 12288 ∧ Isolated s := by
  have hrun : Relation.ReflTransGen (Step (SizesOk 16384)) (ofInfo 16384) _ :=
    (((Relation.ReflTransGen.refl
      ).tail ⟨.allocateForTask 1 1 0, by rintro n ⟨⟩; decide, rfl⟩
      ).tail ⟨.backwardAllocate 4096 2, by rintro n ⟨⟩; decide, rfl⟩
      ).tail ⟨.deallocateAddress 0 2, nofun, rfl⟩
  exact ⟨_, hrun, by decide +kernel, by decide +kernel,
    ownership_isolation (by decide) (by decide) hrun⟩

/-- A device of `2^64 - 2` bytes. `BackwardAllocate(2^64 - 2)` is rounded to zero bytes, so two
    processes get the same address. -/
theorem ownership_isolation_wrapping_size : ∃ s : MemoryService,
    Relation.ReflTransGen (Step fun _ op => ∀ n, op.size? = some n → 1 ≤ n ∧ n < 2 ^ 64)
        (ofInfo (2 ^ 64 - 2)) s ∧
      s.Owns (.legacy 1) (2 ^ 64 - 2) ∧ s.Owns (.legacy 2) (2 ^ 64 - 2) ∧ ¬ Isolated s := by
  have hrun : Relation.ReflTransGen
      (Step fun _ op => ∀ n, op.size? = some n → 1 ≤ n ∧ n < 2 ^ 64) (ofInfo (2 ^ 64 - 2)) _ :=
    ((Relation.ReflTransGen.refl
      ).tail ⟨.backwardAllocate (2 ^ 64 - 2) 1, by rintro n ⟨⟩; decide, rfl⟩
      ).tail ⟨.backwardAllocate (2 ^ 64 - 2) 2, by rintro n ⟨⟩; decide, rfl⟩
  have hfirst : (((ofInfo (2 ^ 64 - 2)).exec (.backwardAllocate (2 ^ 64 - 2) 1)).exec
      (.backwardAllocate (2 ^ 64 - 2) 2)).Owns (.legacy 1) (2 ^ 64 - 2) := by decide +kernel
  have hsecond : (((ofInfo (2 ^ 64 - 2)).exec (.backwardAllocate (2 ^ 64 - 2) 1)).exec
      (.backwardAllocate (2 ^ 64 - 2) 2)).Owns (.legacy 2) (2 ^ 64 - 2) := by decide +kernel
  refine ⟨_, hrun, hfirst, hsecond, fun h => ?_⟩
  exact absurd (h.unique _ _ _ hfirst hsecond) (by decide)

end DxRt.MemoryService
