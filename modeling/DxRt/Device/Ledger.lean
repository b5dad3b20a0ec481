import DxRt.Device.Registration
import DxRt.Memory.Canonical

/-! Accounts of a service layer: which blocks it has handed out, and for which task.

    A `Holding` is a block id that a caller may give back. `Accounts` says that the pool consists of
    the blocks that were there before and those of the holdings; since the blocks determine the pool,
    equal holdings mean equal pools. `Ledger` states what a layer owes its callers: an allocation
    fails without a trace or adds a holding, a deallocation with the block id of a holding removes
    that holding, and a deallocation that meets nothing changes nothing. -/

namespace DxRt
open Memory MemoryService HandleTable

/-! ### The pool and the holdings -/

/-- A block id handed out for a task; without a service it may stand for no block at all. -/
structure Holding where
  taskId : ℤ
  blockId : ℤ
  block : Option (ℕ × ℕ)
  pos : 0 < blockId

namespace Holding

def blocksOf (held : List Holding) : List (ℕ × ℕ) := held.filterMap Holding.block

/-- Where the block starts, -1 when there is none. -/
def addr (h : Holding) : ℕ := (h.block.map Prod.fst).getD NEG1

end Holding

open Holding

/-- The pool holds the blocks of `base` and those of the holdings, and is well formed. -/
structure Accounts (base : Memory) (held : List Holding) (m : Memory) : Prop where
  inv : PoolInv m
  size_eq : m.size = base.size
  blocks : m.blocks.Perm (base.blocks ++ blocksOf held)

namespace Accounts
variable {base m m' : Memory} {held held' rest : List Holding} {h : Holding}

theorem refl (hbase : PoolInv base) : Accounts base [] base :=
  ⟨hbase, rfl, by simp [blocksOf]⟩

theorem unique (hm : Accounts base held m) (hm' : Accounts base held m') : m = m' :=
  eq_of_blocks hm.inv hm'.inv (hm.size_eq.trans hm'.size_eq.symm)
    (hm.blocks.trans hm'.blocks.symm)

theorem perm (hm : Accounts base held m) (hp : held.Perm held') : Accounts base held' m :=
  ⟨hm.inv, hm.size_eq, hm.blocks.trans ((hp.filterMap _).append_left _)⟩

theorem blocksOf_some {a n : ℕ} (hb : h.block = some (a, n)) :
    blocksOf (h :: rest) = (a, n) :: blocksOf rest := by
  simp [blocksOf, hb]

theorem blocksOf_none (hb : h.block = none) : blocksOf (h :: rest) = blocksOf rest := by
  simp [blocksOf, hb]

/-- A new block. -/
theorem grant {a n : ℕ} (hm : Accounts base held m) (hc : Carved m a n m')
    (hb : h.block = some (a, n)) : Accounts base (h :: held) m' := by
  refine ⟨hc.inv, hc.size_eq.trans hm.size_eq, ?_⟩
  rw [blocksOf_some hb]
  exact (hc.blocks.trans (hm.blocks.cons _)).trans List.perm_middle.symm

/-- A block id without a block. -/
theorem hollow (hb : h.block = none) : Accounts base (h :: held) m ↔ Accounts base held m := by
  constructor
  · intro hm
    exact ⟨hm.inv, hm.size_eq, blocksOf_none hb ▸ hm.blocks⟩
  · intro hm
    exact ⟨hm.inv, hm.size_eq, (blocksOf_none hb).symm ▸ hm.blocks⟩

/-- The block of a holding is busy. -/
theorem mem_blocks {a n : ℕ} (hm : Accounts base (h :: rest) m) (hb : h.block = some (a, n)) :
    (a, n) ∈ m.blocks := by
  rw [hm.blocks.mem_iff, blocksOf_some hb]
  exact List.mem_append_right _ (List.mem_cons_self ..)

/-- Freeing the block of a holding. -/
theorem refund {a n : ℕ} (hm : Accounts base (h :: rest) m) (hb : h.block = some (a, n)) :
    Accounts base rest (m.deallocate a) := by
  obtain ⟨hinv, hsize, hperm⟩ := deallocate_spec hm.inv (hm.mem_blocks hb)
  refine ⟨hinv, hsize.trans hm.size_eq, (List.perm_cons (a, n)).mp (hperm.symm.trans ?_)⟩
  rw [← List.perm_middle.congr_right, ← blocksOf_some hb]
  exact hm.blocks

end Accounts

/-! ### What a layer owes -/

variable {σ : Type}

/-- The laws of a layer whose state `σ` has the pool `pool`: `harmless` permits a call in a state,
    `void` says that a deallocation meets nothing. -/
structure Ledger (m : Component LayerCall LayerCall.Ans σ Surroundings) (pool : σ → Memory)
    (harmless : σ → LayerCall → Surroundings → Prop) (void : σ → SharedMemoryInfo → Prop) where
  /-- The state has handed out the holdings, on top of the pool `base`. -/
  Holds : Memory → List Holding → σ → Prop
  accounts : ∀ {base held s}, Holds base held s → Accounts base held (pool s)
  perm : ∀ {base held held' s}, Holds base held s → held.Perm held' → Holds base held' s
  nodup : ∀ {base held s}, Holds base held s → (held.map Holding.blockId).Nodup
  allocate : ∀ {base held s} {taskId : ℤ} {type : MemoryType} {size : ℕ} {w : Surroundings}
    {s' : σ} {info : SharedMemoryInfo}, Holds base held s →
    harmless s (.allocateInfo taskId type size) w →
    m.step s (.allocateInfo taskId type size) w = (s', info) →
    info.blockId < 0 ∧ info.fd < 0 ∧ Holds base held s' ∨
      (0 < size → 0 < info.size) ∧ ∃ h : Holding, h.taskId = taskId ∧ h.blockId = info.blockId ∧
        Holds base (h :: held) s'
  deallocate : ∀ {base h rest s} {info : SharedMemoryInfo} {w : Surroundings},
    Holds base (h :: rest) s → info.blockId = h.blockId →
    harmless s (.deAllocateInfo info) w → Holds base rest (m.step s (.deAllocateInfo info) w).1
  ignore : ∀ {base held s} {info : SharedMemoryInfo} {w : Surroundings}, Holds base held s →
    void s info → (m.step s (.deAllocateInfo info) w).1 = s
  unheld : ∀ {base held s} {info : SharedMemoryInfo}, Holds base held s → void s info →
    ∀ h ∈ held, h.blockId ≠ info.blockId
  write : ∀ s type info w, m.step s (.dmaWrite type info) w = (s, w.dma)
  read : ∀ s type info w, m.step s (.dmaRead type info) w = (s, w.dma)

/-! ### Pool requests -/

/-- The bytes that the pool cuts out for a request. -/
def reservedSize (type : MemoryType) (size : ℕ) : ℕ :=
  if type.shouldUseBackwardAllocation then alignSize size else requestSize size

/-- The request does not come out empty after rounding while there is a node to cut it from. -/
def PoolSound (mem : Memory) (type : MemoryType) (size : ℕ) : Prop :=
  reservedSize type size ≠ 0 ∨ ¬ ZeroFits mem

instance (mem : Memory) (type : MemoryType) (size : ℕ) : Decidable (PoolSound mem type size) :=
  inferInstanceAs (Decidable (_ ∨ _))

namespace NoServiceLayer

/-- A pool request fails and changes nothing, or cuts out a block of the rounded size. -/
theorem poolAllocate_spec {mem : Memory} (h : PoolInv mem) {type : MemoryType} {size : ℕ}
    (hsound : PoolSound mem type size) :
    poolAllocate mem type size = (mem, NEG1) ∨ 0 < reservedSize type size ∧
      Carved mem (poolAllocate mem type size).2 (reservedSize type size)
        (poolAllocate mem type size).1 := by
  rw [PoolSound, reservedSize] at hsound
  rw [poolAllocate, reservedSize]
  split_ifs at hsound ⊢
  · cases hfind : mem.findBestFitBackward (alignSize size) with
    | none => exact Or.inl (backwardAllocate_none h hfind)
    | some e =>
      have hpos : 0 < alignSize size := by
        refine Nat.pos_of_ne_zero (hsound.resolve_right fun hz => ?_)
        rw [findBestFitBackward, scanBestFit_zero hz fun e he => List.mem_reverse.mp he] at hfind
        cases hfind
      obtain ⟨haddr, hc⟩ := backwardAllocate_some h hfind hpos
      exact Or.inr ⟨hpos, haddr ▸ hc⟩
  · cases hfind : mem.findBestFit (requestSize size) with
    | none => exact Or.inl (allocate_none h hfind)
    | some e =>
      have hpos : 0 < requestSize size := by
        refine Nat.pos_of_ne_zero (hsound.resolve_right fun hz => ?_)
        rw [findBestFit, scanBestFit_zero hz fun e he => he] at hfind
        cases hfind
      obtain ⟨haddr, hc⟩ := allocate_some h hfind hpos
      exact Or.inr ⟨hpos, haddr ▸ hc⟩

/-- What spoils the books in library mode: block ids that leave `int64_t`, requests that come out
    empty, and a block at the address 0, which `DeAllocateInfo` takes for no block. -/
def harmless (s : NoServiceLayer) (c : LayerCall) (_ : Surroundings) : Prop :=
  match c with
  | .allocateInfo _ type size => s.nextNoServiceBlockId < 2 ^ 63 ∧ PoolSound s.mem type size ∧
      (poolAllocate s.mem type size).2 ≠ 0
  | _ => True

/-- Neither a block id that is known, nor an address at which a node starts. -/
def void (s : NoServiceLayer) (info : SharedMemoryInfo) : Prop :=
  (info.blockId = 0 ∨ s.blockIdToAddr.find? (toUint64 info.blockId) = none) ∧
    (info.physAddr = NEG1 ∨ info.physAddr = 0 ∨ s.mem.pool.find? info.physAddr = none)

instance (s : NoServiceLayer) : ∀ c w, Decidable (s.harmless c w)
  | .allocateInfo .., _ => inferInstanceAs (Decidable (_ ∧ _ ∧ _))
  | .deAllocateInfo _, _ | .dmaWrite .., _ | .dmaRead .., _ => isTrue trivial

instance (s : NoServiceLayer) (info : SharedMemoryInfo) : Decidable (s.void info) :=
  inferInstanceAs (Decidable (_ ∧ _))

/-- A layer with a pool of its own, as it is before anything is registered: the counter is ahead of
    the block ids that are known. -/
structure Wf (s : NoServiceLayer) : Prop where
  pool : PoolInv s.mem
  started : 0 < s.nextNoServiceBlockId
  known : ∀ id addr, s.blockIdToAddr.find? id = some addr → id < s.nextNoServiceBlockId

structure Holds (base : Memory) (held : List Holding) (s : NoServiceLayer) : Prop where
  accounts : Accounts base held s.mem
  nodup : (held.map Holding.blockId).Nodup
  started : 0 < s.nextNoServiceBlockId
  known : ∀ id addr, s.blockIdToAddr.find? id = some addr → id < s.nextNoServiceBlockId
  entry : ∀ h ∈ held, h.blockId < 2 ^ 63 ∧ h.addr ≠ 0 ∧
    s.blockIdToAddr.find? (toUint64 h.blockId) = some h.addr

theorem Wf.holds {s : NoServiceLayer} (h : s.Wf) : Holds s.mem [] s :=
  ⟨Accounts.refl h.pool, List.nodup_nil, h.started, h.known, fun _ hh => nomatch hh⟩

theorem toUint64_natCast {n : ℕ} (hn : n < 2 ^ 64) : toUint64 n = n := by
  rw [toUint64, Int.emod_eq_of_lt (by omega) (by exact_mod_cast hn), Int.toNat_natCast]

theorem toUint64_inj {i j : ℤ} (hi : 0 < i ∧ i < 2 ^ 63) (hj : 0 < j ∧ j < 2 ^ 63)
    (h : toUint64 i = toUint64 j) : i = j := by
  rw [toUint64, toUint64, Int.emod_eq_of_lt (by omega) (by omega),
    Int.emod_eq_of_lt (by omega) (by omega)] at h
  omega

variable {base : Memory} {held rest : List Holding} {h : Holding} {s : NoServiceLayer}

/-- Block ids do not come twice. -/
theorem Holds.fresh (hs : Holds base held s) (hlt : s.nextNoServiceBlockId < 2 ^ 63) :
    (s.nextNoServiceBlockId : ℤ) ∉ held.map Holding.blockId := by
  intro hmem
  obtain ⟨h, hh, hid⟩ := List.mem_map.mp hmem
  obtain ⟨_, _, hfind⟩ := hs.entry h hh
  rw [hid, toUint64_natCast (by omega)] at hfind
  exact absurd (hs.known _ _ hfind) (lt_irrefl _)

theorem Holds.allocate (hs : Holds base held s) {taskId : ℤ} {type : MemoryType} {size : ℕ}
    {w : Surroundings} (hok : s.harmless (.allocateInfo taskId type size) w) :
    ∃ h : Holding, h.taskId = taskId ∧ h.blockId = (s.allocateInfo type size).2.blockId ∧
      Holds base (h :: held) (s.allocateInfo type size).1 := by
  obtain ⟨hlt, hsound, hzero⟩ := hok
  have hpos : (0 : ℤ) < s.nextNoServiceBlockId := by exact_mod_cast hs.started
  have hid64 : (s.nextNoServiceBlockId : ℤ) < 2 ^ 63 := by exact_mod_cast hlt
  have halloc := poolAllocate_spec hs.accounts.inv hsound
  -- the new holding, with the block that the pool has cut or with none
  have hgrant : ∃ block : Option (ℕ × ℕ),
      Accounts base (⟨taskId, s.nextNoServiceBlockId, block, hpos⟩ :: held)
        (poolAllocate s.mem type size).1 ∧
      (block.map Prod.fst).getD NEG1 = (poolAllocate s.mem type size).2 := by
    rcases halloc with heq | ⟨_, hc⟩
    · refine ⟨none, (Accounts.hollow rfl).mpr ?_, by rw [heq]; rfl⟩
      rw [heq]
      exact hs.accounts
    · exact ⟨some (_, _), hs.accounts.grant hc rfl, rfl⟩
  obtain ⟨block, haccounts, haddr⟩ := hgrant
  refine ⟨⟨taskId, s.nextNoServiceBlockId, block, hpos⟩, rfl, rfl, haccounts,
    List.nodup_cons.mpr ⟨hs.fresh hlt, hs.nodup⟩, Nat.succ_pos _, fun id addr hfind => ?_,
    fun h hh => ?_⟩
  · simp only [allocateInfo, SortedMap.find?_insert] at hfind ⊢
    split_ifs at hfind with hid
    · omega
    · exact Nat.lt_succ_of_lt (hs.known id addr hfind)
  · simp only [allocateInfo, SortedMap.find?_insert]
    rcases List.mem_cons.mp hh with rfl | hh
    · refine ⟨hid64, ?_, ?_⟩
      · rw [addr, haddr]
        exact hzero
      · rw [toUint64_natCast (by omega), if_pos rfl, addr, haddr]
    · obtain ⟨hlt', haddr', hfind⟩ := hs.entry h hh
      refine ⟨hlt', haddr', ?_⟩
      rw [if_neg (hs.known _ _ hfind).ne]
      exact hfind

theorem Holds.deallocate (hs : Holds base (h :: rest) s) {info : SharedMemoryInfo}
    (hid : info.blockId = h.blockId) : Holds base rest (s.deAllocateInfo info) := by
  obtain ⟨hlt, hzero, hfind⟩ := hs.entry h (List.mem_cons_self ..)
  have hne : info.blockId ≠ 0 := by
    have hpos := h.pos
    omega
  have haddr : s.addrOf info = h.addr := by
    rw [addrOf, if_pos hne, hid, hfind, Option.getD_some]
  have hmap : (s.deAllocateInfo info).blockIdToAddr =
      s.blockIdToAddr.erase (toUint64 h.blockId) := by
    rw [deAllocateInfo, if_pos hne, hid]
  have hnodup := List.nodup_cons.mp hs.nodup
  refine ⟨?_, hnodup.2, hs.started, fun id addr hfind' => ?_, fun h' hh' => ?_⟩
  · simp only [deAllocateInfo, haddr]
    cases hb : h.block with
    | none =>
      rw [if_neg (by simp [Holding.addr, hb])]
      exact (Accounts.hollow hb).mp hs.accounts
    | some block =>
      obtain ⟨a, n⟩ := block
      have ha : h.addr = a := by simp [Holding.addr, hb]
      have hstart : a < NEG1 := blocks_start_lt hs.accounts.inv
        (List.mem_map_of_mem (hs.accounts.mem_blocks hb))
      rw [ha] at hzero ⊢
      rw [if_pos ⟨hstart.ne, hzero⟩]
      exact hs.accounts.refund hb
  · rw [hmap, SortedMap.find?_erase] at hfind'
    split_ifs at hfind'
    exact hs.known id addr hfind'
  · obtain ⟨hlt', haddr', hfind'⟩ := hs.entry h' (List.mem_cons_of_mem _ hh')
    refine ⟨hlt', haddr', ?_⟩
    have hother : toUint64 h'.blockId ≠ toUint64 h.blockId := by
      intro heq
      have hsame := toUint64_inj ⟨h'.pos, hlt'⟩ ⟨h.pos, hlt⟩ heq
      exact hnodup.1 (hsame ▸ List.mem_map_of_mem hh')
    rw [hmap, SortedMap.find?_erase, if_neg hother, hfind']

theorem deAllocateInfo_void {info : SharedMemoryInfo} (hvoid : s.void info) :
    s.deAllocateInfo info = s := by
  obtain ⟨hid, haddr⟩ := hvoid
  have hof : s.addrOf info = info.physAddr := by
    rw [addrOf]
    rcases hid with hid | hid
    · rw [if_neg (not_not.mpr hid)]
    · rw [hid, Option.getD_none, ite_self]
  have hmap : (if info.blockId ≠ 0 then s.blockIdToAddr.erase (toUint64 info.blockId)
      else s.blockIdToAddr) = s.blockIdToAddr := by
    rcases hid with hid | hid
    · rw [if_neg (not_not.mpr hid)]
    · rw [SortedMap.erase_of_find?_none hid, ite_self]
  have hmem : (if s.addrOf info ≠ NEG1 ∧ s.addrOf info ≠ 0 then s.mem.deallocate (s.addrOf info)
      else s.mem) = s.mem := by
    rw [hof]
    rcases haddr with haddr | haddr | haddr
    · rw [if_neg fun hc => hc.1 haddr]
    · rw [if_neg fun hc => hc.2 haddr]
    · rw [deallocate, haddr, ite_self]
  rw [deAllocateInfo, hmap, hmem]

/-- The layer without a service keeps its books as long as every call is harmless. -/
def ledger : Ledger component NoServiceLayer.mem harmless void where
  Holds := Holds
  accounts hs := hs.accounts
  perm hs hp :=
    { accounts := hs.accounts.perm hp
      nodup := (hp.map _).nodup_iff.mp hs.nodup
      started := hs.started
      known := hs.known
      entry := fun h hh => hs.entry h (hp.mem_iff.mpr hh) }
  nodup hs := hs.nodup
  allocate {_ _ s taskId type size w s' info} hs hok hstep := by
    have hstep : s.allocateInfo type size = (s', info) := hstep
    have hinfo : (s.allocateInfo type size).2.size = size := rfl
    obtain ⟨h, htask, hid, hs'⟩ := hs.allocate hok
    rw [hstep] at hid hs' hinfo
    exact Or.inr ⟨fun hpos => hinfo ▸ hpos, h, htask, hid, hs'⟩
  deallocate hs hid _ := hs.deallocate hid
  ignore _ hvoid := deAllocateInfo_void hvoid
  unheld hs hvoid h hh hid := by
    obtain ⟨_, _, hfind⟩ := hs.entry h hh
    have hne := h.pos.ne'
    rw [hid] at hne hfind
    rw [hvoid.1.resolve_left hne] at hfind
    cases hfind
  write _ _ _ _ := rfl
  read _ _ _ _ := rfl

end NoServiceLayer
end DxRt
