import DxRt.Device.Ledger

/-! The books of a process whose device memory is in the service.

    What the service has handed out is a list of live blocks, each found under its block id, its
    offset and its absolute address (`Lending.Tracked`). The holdings of the process are among the
    live blocks. An allocation that fails half-way is undone by the service itself; one that the
    service has granted must also reach the process, and its three numbers must be new. -/

namespace DxRt
open Memory MemoryService HandleTable Holding

namespace MemoryService

/-- Freeing one block is what the pool does. -/
theorem Freed.mem_eq {s s' : MemoryService} {a : ℕ} (h : PoolInv s.mem) (hf : Freed s {a} s')
    (ha : a ∈ s.mem.blocks.map Prod.fst) : s'.mem = s.mem.deallocate a := by
  obtain ⟨hinv, hsize, hblocks⟩ := deallocate_blocks h ha
  refine eq_of_blocks hf.owned.pool hinv (hf.size_eq.trans hsize.symm) ?_
  refine (List.perm_ext_iff_of_nodup (.of_map _ (blocks_nodup _)) (.of_map _ (blocks_nodup _))).mpr
    fun b => ?_
  rw [hf.blocks, hblocks, Set.mem_singleton_iff]

end MemoryService

namespace Service
variable {p : Policy} {n : ℕ}

/-- Whichever function is chosen, the pool does the same. -/
theorem allocateFor_pool (mem : MemoryService) (size : ℕ) (pid taskId : ℤ) (type : MemoryType) :
    allocateFor mem size pid taskId type.shouldUseBackwardAllocation = (mem, NEG1) ∨
      (allocateFor mem size pid taskId type.shouldUseBackwardAllocation).2 =
          (NoServiceLayer.poolAllocate mem.mem type size).2 ∧
        (allocateFor mem size pid taskId type.shouldUseBackwardAllocation).1.mem =
          (NoServiceLayer.poolAllocate mem.mem type size).1 := by
  by_cases hadm : mem.admits size = true
  · refine Or.inr ?_
    rw [allocateFor, NoServiceLayer.poolAllocate]
    split_ifs <;> simp only [backwardAllocateForTask, allocateForTask, MemoryService.backwardAllocate,
      MemoryService.allocate, allocateWith, if_pos hadm, true_and] <;> split_ifs <;> rfl
  · refine Or.inl ?_
    rw [allocateFor]
    split_ifs <;> simp only [backwardAllocateForTask, allocateForTask, MemoryService.backwardAllocate,
      MemoryService.allocate, allocateWith, if_neg hadm]

/-- An allocation that the pool grants: who owns it, and what is cut out for it. -/
theorem allocateFor_granted {mem : MemoryService} (h : Owned mem) {type : MemoryType} {size : ℕ}
    (hsound : PoolSound mem.mem type size) (pid taskId : ℤ) :
    allocateFor mem size pid taskId type.shouldUseBackwardAllocation = (mem, NEG1) ∨
      ∃ o : Owner, o.pid = pid ∧
        Granted mem o (allocateFor mem size pid taskId type.shouldUseBackwardAllocation).2
          (allocateFor mem size pid taskId type.shouldUseBackwardAllocation).1 ∧
        0 < reservedSize type size ∧
        Carved mem.mem (allocateFor mem size pid taskId type.shouldUseBackwardAllocation).2
          (reservedSize type size)
          (allocateFor mem size pid taskId type.shouldUseBackwardAllocation).1.mem := by
  rcases allocateFor_pool mem size pid taskId type with heq | ⟨haddr, hmem⟩
  · exact Or.inl heq
  have hspec : allocateFor mem size pid taskId type.shouldUseBackwardAllocation = (mem, NEG1) ∨
      ∃ o : Owner, o.pid = pid ∧
        Granted mem o (allocateFor mem size pid taskId type.shouldUseBackwardAllocation).2
          (allocateFor mem size pid taskId type.shouldUseBackwardAllocation).1 := by
    rw [PoolSound, reservedSize] at hsound
    rw [allocateFor]
    split_ifs at hsound ⊢
    · have hop : mem.Sound (.backwardAllocateForTask size pid taskId) := fun _ => hsound
      exact (backwardAllocateForTask_spec h hop).imp id fun hg => ⟨.task pid taskId, rfl, hg⟩
    · have hop : mem.Sound (.allocateForTask size pid taskId) := fun _ => hsound
      exact (allocateForTask_spec h hop).imp id fun hg => ⟨.task pid taskId, rfl, hg⟩
    · have hop : mem.Sound (.backwardAllocate size pid) := fun _ => hsound
      exact (backwardAllocate_spec h hop).imp id fun hg => ⟨.legacy pid, rfl, hg⟩
    · have hop : mem.Sound (.allocate size pid) := fun _ => hsound
      exact (allocate_spec h hop).imp id fun hg => ⟨.legacy pid, rfl, hg⟩
  refine hspec.imp id ?_
  rintro ⟨o, hpid, hg⟩
  rcases NoServiceLayer.poolAllocate_spec h.pool hsound with heq | ⟨hpos, hc⟩
  · -- no block starts at -1
    rw [heq] at haddr
    have hstart := blocks_start_lt hg.owned.pool ((hg.owned.exact _).mp
      ⟨o, (hg.recorded _ _).mpr (Or.inr ⟨rfl, rfl⟩)⟩)
    exact absurd haddr hstart.ne
  · rw [← haddr, ← hmem] at hc
    exact ⟨o, hpid, hg, hpos, hc⟩

end Service

/-! ### One call of the service -/

namespace ServiceLayer
variable {p : Policy} {n : ℕ} {memSize : Fin n → ℕ}
open Lending

/-- The call that the service receives. -/
def request (pid : ℤ) (d : Fin n) (taskId : ℤ) (type : MemoryType) (size : ℕ) (w : Surroundings) :
    Lending.Op n :=
  .handleAllocate pid d taskId (size % 2 ^ 32) type.shouldUseBackwardAllocation w.os

/-- What the service answers to it. -/
def response (pid : ℤ) (d : Fin n) (s : ShmService p n) (taskId : ℤ) (type : MemoryType)
    (size : ℕ) (w : Surroundings) : ShmService p n × SharedMemoryInfo :=
  s.handleAllocate pid d taskId (size % 2 ^ 32) type.shouldUseBackwardAllocation w.os

/-- What spoils the books with a service: a request that comes out empty, a granted block whose
    answer is lost, numbers that are in use, and a deallocation that does not arrive. -/
def harmless (pid : ℤ) (d : Fin n) (s : ShmService p n) (c : LayerCall) (w : Surroundings) : Prop :=
  match c with
  | .allocateInfo taskId type size => w.delivered = true →
      PoolSound (s.service.mem d).mem type (size % 2 ^ 32) ∧
      ((response pid d s taskId type size w).2.fd ≠ -1 →
        w.answered = true ∧ (response pid d s taskId type size w).2.physAddr ≠ NEG1 ∧
        Lending.Succeeds ⟨s, []⟩ (request pid d taskId type size w) ∧
        ∀ key ∈ (Lending.nextBlock ⟨s, []⟩ pid d taskId (size % 2 ^ 32)
          type.shouldUseBackwardAllocation w.os).keys,
          s.service.handles.tryGetSharedMemoryHandle (d : ℕ) pid key = none)
  | .deAllocateInfo _ => w.delivered = true
  | _ => True

/-- The number in the request is not in the table of the process. -/
def void (pid : ℤ) (d : Fin n) (s : ShmService p n) (info : SharedMemoryInfo) : Prop :=
  s.service.handles.tryGetSharedMemoryHandle (d : ℕ) pid (keyOf info) = none

instance (pid : ℤ) (d : Fin n) (s : ShmService p n) : ∀ c w, Decidable (harmless pid d s c w)
  | .allocateInfo .., _ => inferInstanceAs (Decidable (_ → _ ∧ (_ → _ ∧ _ ∧ _ ∧ ∀ _ ∈ _, _)))
  | .deAllocateInfo _, _ => inferInstanceAs (Decidable (_ = true))
  | .dmaWrite .., _ | .dmaRead .., _ => isTrue trivial

instance (pid : ℤ) (d : Fin n) (s : ShmService p n) (info : SharedMemoryInfo) :
    Decidable (void pid d s info) :=
  inferInstanceAs (Decidable (_ = none))

structure Holds (memSize : Fin n → ℕ) (pid : ℤ) (d : Fin n) (base : Memory) (held : List Holding)
    (s : ShmService p n) : Prop where
  accounts : Accounts base held (s.service.mem d).mem
  nodup : (held.map Holding.blockId).Nodup
  tracked : ∃ live, Tracked memSize ⟨s, live⟩ ∧ ∀ h ∈ held, ∃ b ∈ live, (b.pid = pid ∧ b.d = d) ∧
    b.info.blockId = h.blockId ∧ ∃ size, h.block = some (b.info.physAddrOffset, size)

/-- The registries may be rewritten as long as they record the same. -/
theorem tracked_rewrite {s : ShmService p n} {live : List (Block n)}
    (h : Tracked memSize ⟨s, live⟩) (d : Fin n) {mem : MemoryService} {memfd : MemFDService}
    (howned : RunOwned (memSize d) mem) (hrec : ∀ o a, mem.Owns o a ↔ (s.service.mem d).Owns o a)
    (hmemories : memfd.memories = s.memfd.memories) :
    Tracked memSize ⟨⟨s.service.setMem d mem, memfd⟩, live⟩ := by
  have hat : ∀ d', RunOwned (memSize d') ((s.service.setMem d mem).mem d') ∧
      ∀ o a, ((s.service.setMem d mem).mem d').Owns o a ↔ (s.service.mem d').Owns o a := by
    intro d'
    by_cases hd : d' = d
    · subst hd
      simp only [Service.setMem, Function.update_self]
      exact ⟨howned, hrec⟩
    · simp only [Service.setMem, Function.update_of_ne hd]
      exact ⟨h.owned d', fun _ _ => trivial⟩
  refine ⟨fun d' => (hat d').1, fun d' pid a => ?_, h.offsets, h.table, h.base, fun b hb => ?_,
    h.fds⟩
  · simp only [(hat d').2]
    exact h.recorded d' pid a
  · rw [hmemories]
    exact h.opened b hb

theorem setMem_self (s : ShmService p n) (d : Fin n) :
    s.service.setMem d (s.service.mem d) = s.service := by
  rw [Service.setMem, Function.update_eq_self]

theorem physAddr_invalidInfo (code : ℤ) : (Service.invalidInfo code).physAddr = NEG1 := by
  simp [Service.invalidInfo, SharedMemoryInfo.physAddr, NEG1]

/-- Shared memory that is not created leaves the open descriptors alone. -/
theorem createSharedMemory_cases (m : MemFDService) (size : ℕ) (os : Syscalls) :
    (∃ code, (m.createSharedMemory size os).2 = .error code ∧
        (m.createSharedMemory size os).1.memories = m.memories) ∨
      ∃ info, (m.createSharedMemory size os).2 = .ok info ∧ info.fd ≠ -1 := by
  rw [MemFDService.createSharedMemory]
  split_ifs with hsize hfd hmap hseal
  · exact Or.inl ⟨_, rfl, rfl⟩
  · exact Or.inl ⟨_, rfl, rfl⟩
  · exact Or.inl ⟨_, rfl, rfl⟩
  · exact Or.inl ⟨_, rfl, rfl⟩
  · exact Or.inr ⟨_, rfl, hfd⟩

/-- How an allocation fails: the pool has nothing, or what it has granted is given back. -/
theorem handleAllocate_failed {s : ShmService p n} {pid : ℤ} {d : Fin n} {taskId : ℤ} {size : ℕ}
    {forModel : Bool} {os : Syscalls} {r : MemoryService × ℕ}
    (hr : Service.allocateFor (s.service.mem d) size pid taskId forModel = r)
    (hfail : (s.handleAllocate pid d taskId size forModel os).2.fd = -1) :
    ∃ code memfd, memfd.memories = s.memfd.memories ∧
      s.handleAllocate pid d taskId size forModel os =
        (⟨s.service.setMem d
            (if r.2 = NEG1 then r.1 else (r.1.deallocateAddress r.2 pid).1), memfd⟩,
          Service.invalidInfo code) := by
  simp only [ShmService.handleAllocate, Service.handleAllocate, hr] at hfail ⊢
  by_cases hneg : r.2 = NEG1
  · simp only [if_pos hneg]
    exact ⟨_, _, rfl, rfl⟩
  · simp only [if_neg hneg] at hfail ⊢
    rcases createSharedMemory_cases s.memfd size os with ⟨code, herr, hmem⟩ | ⟨info, hok, hfd⟩
    · rw [herr]
      exact ⟨_, _, hmem, rfl⟩
    · rw [hok] at hfail
      exact absurd hfail hfd

/-- What is granted and given back at once changes neither the record nor the pool. -/
theorem granted_undone {mem mem' : MemoryService} (h : Owned mem) {o : Owner} {a required : ℕ}
    (hg : Granted mem o a mem') (hc : Carved mem.mem a required mem'.mem) :
    Owned (mem'.deallocateAddress a o.pid).1 ∧ (mem'.deallocateAddress a o.pid).1.mem = mem.mem ∧
      ∀ o' a', (mem'.deallocateAddress a o.pid).1.Owns o' a' ↔ mem.Owns o' a' := by
  have howns : mem'.Owns o a := (hg.recorded _ _).mpr (Or.inr ⟨rfl, rfl⟩)
  obtain ⟨_, hfreed⟩ := deallocateAddress_owned hg.owned howns
  refine ⟨hfreed.owned, ?_, fun o' a' => ?_⟩
  · rw [hfreed.mem_eq hg.owned.pool ((hg.owned.exact a).mp ⟨o, howns⟩)]
    exact deallocate_carved h.pool hc
  · rw [hfreed.recorded, hg.recorded, Set.mem_singleton_iff]
    constructor
    · rintro ⟨hold | ⟨rfl, rfl⟩, hne⟩
      · exact hold
      · exact absurd rfl hne
    · intro hold
      refine ⟨Or.inl hold, fun heq => hg.fresh o' ?_⟩
      rw [← heq]
      exact hold

/-- An allocation that fails leaves the live blocks and the pool as they were. -/
theorem response_failed {s : ShmService p n} {live : List (Block n)}
    (h : Tracked memSize ⟨s, live⟩) {pid : ℤ} {d : Fin n} {taskId : ℤ} {type : MemoryType}
    {size : ℕ} {w : Surroundings}
    (hsound : PoolSound (s.service.mem d).mem type (size % 2 ^ 32))
    (hfail : (response pid d s taskId type size w).2.fd = -1) :
    Tracked memSize ⟨(response pid d s taskId type size w).1, live⟩ ∧
      ((response pid d s taskId type size w).1.service.mem d).mem = (s.service.mem d).mem ∧
      (response pid d s taskId type size w).2.physAddr = NEG1 := by
  obtain ⟨howned, hsize⟩ : RunOwned (memSize d) (s.service.mem d) := h.owned d
  have hgranted := Service.allocateFor_granted howned hsound pid taskId
  generalize hr : Service.allocateFor (s.service.mem d) (size % 2 ^ 32) pid taskId
    type.shouldUseBackwardAllocation = r at hgranted
  obtain ⟨code, memfd, hmemories, heq⟩ := handleAllocate_failed hr hfail
  rw [response, heq]
  -- the memory service that is left
  generalize hmem : (if r.2 = NEG1 then r.1 else (r.1.deallocateAddress r.2 pid).1) = mem
  have hkept : Owned mem ∧ mem.mem = (s.service.mem d).mem ∧
      ∀ o a, mem.Owns o a ↔ (s.service.mem d).Owns o a := by
    rcases hgranted with rfl | ⟨o, rfl, hg, _, hc⟩
    · rw [if_pos rfl] at hmem
      subst hmem
      exact ⟨howned, rfl, fun _ _ => Iff.rfl⟩
    · have hstart := blocks_start_lt hg.owned.pool ((hg.owned.exact _).mp
        ⟨o, (hg.recorded _ _).mpr (Or.inr ⟨rfl, rfl⟩)⟩)
      rw [if_neg hstart.ne] at hmem
      subst hmem
      exact granted_undone howned hg hc
  obtain ⟨hown, hpool, hrec⟩ := hkept
  refine ⟨tracked_rewrite h d ⟨hown, hpool ▸ hsize⟩ hrec hmemories, ?_, physAddr_invalidInfo code⟩
  simp only [Service.setMem, Function.update_self]
  exact hpool

/-! ### The laws -/

variable {base : Memory} {held rest : List Holding} {h : Holding} {pid : ℤ} {d : Fin n}
  {s : ShmService p n}

/-- What the service has done when it grants a request. -/
theorem response_granted {s : ShmService p n} {pid : ℤ} {d : Fin n} {taskId : ℤ}
    {type : MemoryType} {size : ℕ} {w : Surroundings}
    (hok : (response pid d s taskId type size w).2.fd ≠ -1) :
    size % 2 ^ 32 ≠ 0 ∧
      (Service.allocateFor (s.service.mem d) (size % 2 ^ 32) pid taskId
        type.shouldUseBackwardAllocation).2 ≠ NEG1 ∧
      (response pid d s taskId type size w).1.service.mem d =
        (Service.allocateFor (s.service.mem d) (size % 2 ^ 32) pid taskId
          type.shouldUseBackwardAllocation).1 ∧
      (response pid d s taskId type size w).2 =
        (Lending.nextBlock ⟨s, []⟩ pid d taskId (size % 2 ^ 32) type.shouldUseBackwardAllocation
          w.os).info := by
  obtain ⟨hneg, hpos, _, info, hexec⟩ := handleAllocate_success (l := ⟨s, []⟩) hok
  refine ⟨hpos, hneg, ?_, ?_⟩
  · rw [show (response pid d s taskId type size w).1 = _ from congrArg Lending.shm hexec]
    exact Function.update_self ..
  · exact congrArg Block.info (List.cons.inj (congrArg Lending.live hexec)).1

/-- A granted block joins the live ones. -/
theorem tracked_granted (hlt : ∀ d, memSize d + 4095 < 2 ^ 64) {live : List (Block n)}
    (htracked : Tracked memSize ⟨s, live⟩) {taskId : ℤ} {type : MemoryType} {size : ℕ}
    {w : Surroundings} (hsucc : Lending.Succeeds ⟨s, []⟩ (request pid d taskId type size w))
    (hfresh : Lending.KeysFresh ⟨s, live⟩ (request pid d taskId type size w)) :
    Tracked memSize ⟨(response pid d s taskId type size w).1,
      ⟨pid, d, (response pid d s taskId type size w).2⟩ :: live⟩ :=
  tracked_allocate hlt htracked (l := ⟨s, live⟩) hsucc hfresh

theorem Holds.granted (hlt : ∀ d, memSize d + 4095 < 2 ^ 64)
    (hs : Holds memSize pid d base held s) {taskId : ℤ} {type : MemoryType} {size : ℕ}
    {w : Surroundings} (hsound : PoolSound (s.service.mem d).mem type (size % 2 ^ 32))
    (hsucc : Lending.Succeeds ⟨s, []⟩ (request pid d taskId type size w))
    (hfresh : ∀ key ∈ (Lending.nextBlock ⟨s, []⟩ pid d taskId (size % 2 ^ 32)
      type.shouldUseBackwardAllocation w.os).keys,
      s.service.handles.tryGetSharedMemoryHandle (d : ℕ) pid key = none) :
    0 < (response pid d s taskId type size w).2.size ∧ ∃ h : Holding, h.taskId = taskId ∧
      h.blockId = (response pid d s taskId type size w).2.blockId ∧
      Holds memSize pid d base (h :: held) (response pid d s taskId type size w).1 := by
  obtain ⟨live, htracked, hlive⟩ := hs.tracked
  obtain ⟨hok, _, hcount, hcount', _⟩ := id hsucc
  obtain ⟨hpos, hneg, hmem, hinfo⟩ := response_granted hok
  -- a key of the new block is no key of a live block
  have hnew : ∀ b ∈ live, b.pid = pid → b.d = d → ∀ key ∈ (Block.mk pid d
      (response pid d s taskId type size w).2).keys, key ∉ b.keys := by
    intro b hb hpid hd key hkey hold
    rw [hinfo] at hkey
    have hnone := hfresh key hkey
    rw [← hpid, ← hd, htracked.lookup hb hold] at hnone
    cases hnone
  have hfresh' : Lending.KeysFresh ⟨s, live⟩ (request pid d taskId type size w) := by
    intro b hb hpid hd key hkey
    refine hnew b hb hpid hd key ?_
    rw [hinfo]
    exact hkey
  have htracked' := tracked_granted hlt htracked hsucc hfresh'
  have hgranted := (Service.allocateFor_granted (htracked.owned d).owned hsound pid taskId
    ).resolve_left fun hr => hneg (congrArg Prod.snd hr)
  obtain ⟨_, _, _, _, hc⟩ := hgranted
  have hoffset : (response pid d s taskId type size w).2.physAddrOffset =
      (Service.allocateFor (s.service.mem d) (size % 2 ^ 32) pid taskId
        type.shouldUseBackwardAllocation).2 := by rw [hinfo]; rfl
  have hsize : (response pid d s taskId type size w).2.size = size % 2 ^ 32 := by rw [hinfo]; rfl
  have hid : (response pid d s taskId type size w).2.blockId = s.memfd.blockIdCounter := by
    rw [hinfo]
    simp only [Lending.nextBlock, MemFDService.toInt32_of_lt hcount']
  have hidpos : 0 < (response pid d s taskId type size w).2.blockId := by
    rw [hid]
    exact_mod_cast hcount
  generalize response pid d s taskId type size w = r at *
  refine ⟨by omega,
    ⟨taskId, r.2.blockId, some (r.2.physAddrOffset, reservedSize type (size % 2 ^ 32)), hidpos⟩,
    rfl, rfl, ?_⟩
  refine ⟨?_, List.nodup_cons.mpr ⟨fun hmem => ?_, hs.nodup⟩, _, htracked', fun h hh => ?_⟩
  · rw [hmem]
    exact hs.accounts.grant hc (by rw [hoffset])
  · obtain ⟨h, hh, hhid⟩ := List.mem_map.mp hmem
    obtain ⟨b, hb, hwho, hbid, _⟩ := hlive h hh
    refine hnew b hb hwho.1 hwho.2 (toUint64 r.2.blockId) (List.mem_cons_self ..) ?_
    rw [← show h.blockId = r.2.blockId from hhid, ← hbid]
    exact List.mem_cons_self ..
  · rcases List.mem_cons.mp hh with rfl | hh
    · exact ⟨⟨pid, d, r.2⟩, List.mem_cons_self .., ⟨rfl, rfl⟩, rfl, _, rfl⟩
    · obtain ⟨b, hb, hrest⟩ := hlive h hh
      exact ⟨b, List.mem_cons_of_mem _ hb, hrest⟩

theorem Holds.allocate (hlt : ∀ d, memSize d + 4095 < 2 ^ 64)
    (hs : Holds memSize pid d base held s) {taskId : ℤ} {type : MemoryType} {size : ℕ}
    {w : Surroundings} (hok : harmless pid d s (.allocateInfo taskId type size) w) :
    (allocateInfo pid d s taskId type size w).2 = Service.invalidInfo (-1) ∧
        Holds memSize pid d base held (allocateInfo pid d s taskId type size w).1 ∨
      0 < (allocateInfo pid d s taskId type size w).2.size ∧ ∃ h : Holding, h.taskId = taskId ∧
        h.blockId = (allocateInfo pid d s taskId type size w).2.blockId ∧
        Holds memSize pid d base (h :: held) (allocateInfo pid d s taskId type size w).1 := by
  by_cases hdel : w.delivered = false
  · rw [allocateInfo, if_pos hdel]
    exact Or.inl ⟨rfl, hs⟩
  have hdel' : w.delivered = true := by simpa using hdel
  obtain ⟨hsound, hgrant⟩ := hok hdel'
  by_cases hfail : (response pid d s taskId type size w).2.fd = -1
  · obtain ⟨live, htracked, hlive⟩ := hs.tracked
    obtain ⟨htracked', hpool, haddr⟩ := response_failed htracked hsound hfail
    have heq : allocateInfo pid d s taskId type size w =
        ((response pid d s taskId type size w).1, Service.invalidInfo (-1)) := by
      rw [allocateInfo, if_neg hdel]
      exact if_pos (Or.inl haddr)
    rw [heq]
    exact Or.inl ⟨rfl, hpool ▸ hs.accounts, hs.nodup, live, htracked', hlive⟩
  · obtain ⟨hans, haddr, hsucc, hfresh⟩ := hgrant hfail
    have heq : allocateInfo pid d s taskId type size w =
        ((response pid d s taskId type size w).1,
          ⟨(response pid d s taskId type size w).2.blockId,
            (response pid d s taskId type size w).2.size, w.ptr, 0,
            (response pid d s taskId type size w).2.physAddrOffset, w.fd⟩) := by
      rw [allocateInfo, if_neg hdel]
      exact if_neg (by simp only [hans, reduceCtorEq, or_false]; exact haddr)
    rw [heq]
    exact Or.inr (hs.granted hlt hsound hsucc hfresh)

theorem keyOf_lt (info : SharedMemoryInfo) : keyOf info < 2 ^ 64 := by
  rw [keyOf]
  split_ifs
  · rw [toUint64]
    omega
  · exact Nat.mod_lt _ (by decide)

theorem Holds.deallocate (hs : Holds memSize pid d base (h :: rest) s) {info : SharedMemoryInfo}
    (hid : info.blockId = h.blockId) {w : Surroundings} (hdel : w.delivered = true) :
    Holds memSize pid d base rest (deAllocateInfo pid d s info w) := by
  obtain ⟨live, htracked, hlive⟩ := hs.tracked
  obtain ⟨b, hb, ⟨rfl, rfl⟩, hbid, size, hblock⟩ := hlive h (List.mem_cons_self ..)
  have hne : info.blockId ≠ 0 := by
    have hpos := h.pos
    omega
  have hkey : keyOf info ∈ b.keys := by
    rw [keyOf, if_pos hne, hid, ← hbid]
    exact List.mem_cons_self ..
  rw [deAllocateInfo, if_neg (by rw [hdel]; decide)]
  have hrel := htracked.releases hb hkey
  have hsucc : Lending.Succeeds ⟨s, live⟩ (.handleDeallocate b.pid b.d (keyOf info)) :=
    ⟨hrel.ok, keyOf_lt info⟩
  have htracked' := tracked_deallocate htracked hsucc
  have hkept := htracked.mem_live_deallocate hb hkey
  -- the pool frees the block of the holding
  have hmem : ((s.handleDeallocate b.pid b.d (keyOf info)).1.service.mem b.d).mem =
      (s.service.mem b.d).mem.deallocate b.info.physAddrOffset := by
    obtain ⟨hfd, _⟩ := htracked.opened b hb
    obtain ⟨o, hpid, howns⟩ := htracked.owner hb
    have howned := (htracked.owned b.d).owned
    have hfreed := (deallocateAddress_owned howned howns).2
    rw [hpid] at hfreed
    rw [handleDeallocate_known (htracked.lookup hb hkey) hfd]
    simp only [Service.setMem, Function.update_self]
    exact hfreed.mem_eq howned.pool ((howned.exact _).mp ⟨o, howns⟩)
  have hnodup := List.nodup_cons.mp hs.nodup
  refine ⟨?_, hnodup.2, _, htracked', fun h' hh' => ?_⟩
  · rw [hmem]
    exact hs.accounts.refund hblock
  · obtain ⟨b', hb', hwho, hbid', hblock'⟩ := hlive h' (List.mem_cons_of_mem _ hh')
    refine ⟨b', (hkept b').mpr ⟨hb', fun heq => hnodup.1 ?_⟩, hwho, hbid', hblock'⟩
    rw [← hbid, ← heq, hbid']
    exact List.mem_map_of_mem hh'

/-- A number that is not in the table is not the offset of a block of the process either. -/
theorem Holds.deallocate_void (hs : Holds memSize pid d base held s) {info : SharedMemoryInfo}
    (hvoid : void pid d s info) (w : Surroundings) : deAllocateInfo pid d s info w = s := by
  obtain ⟨live, htracked, _⟩ := hs.tracked
  rw [deAllocateInfo]
  split_ifs
  · rfl
  have hforeign : ∀ o : Owner, o.pid = pid →
      ¬ (s.service.mem d).Owns o (s.deallocatedOffset pid d (keyOf info)) := by
    intro o hpid howns
    have hok : (s.handleDeallocate pid d (keyOf info)).2 = true := by
      rw [handleDeallocate_unknown hvoid, ← hpid]
      refine (deallocateAddress_owned (htracked.owned d).owned ?_).1
      rw [hpid]
      exact howns
    obtain ⟨b, hb, ⟨rfl, rfl⟩, hkey⟩ := htracked.known ⟨hok, keyOf_lt info⟩
    have hlookup := htracked.lookup hb hkey
    rw [show s.service.handles.tryGetSharedMemoryHandle (b.d : ℕ) b.pid (keyOf info) = none from
      hvoid] at hlookup
    cases hlookup
  have hres : s.service.handles.tryResolveSharedMemoryHandle (d : ℕ) pid (keyOf info) =
      (s.service.handles, none) := by
    simp only [tryResolveSharedMemoryHandle, show s.service.handles.tryGetSharedMemoryHandle
      (d : ℕ) pid (keyOf info) = none from hvoid]
  have hnothing := deallocateAddress_foreign hforeign
  simp only [ShmService.deallocatedOffset, hres] at hnothing
  simp only [ShmService.handleDeallocate, Service.handleDeallocate, hres, hnothing, setMem_self]

/-- The layer with a service keeps its books as long as every call is harmless. -/
def ledger (p : Policy) (hlt : ∀ d, memSize d + 4095 < 2 ^ 64) (pid : ℤ) (d : Fin n) :
    Ledger (component p pid d) (fun s => (s.service.mem d).mem) (harmless pid d) (void pid d) where
  Holds := Holds memSize pid d
  accounts hs := hs.accounts
  perm hs hp :=
    { accounts := hs.accounts.perm hp
      nodup := (hp.map _).nodup_iff.mp hs.nodup
      tracked := by
        obtain ⟨live, htracked, hlive⟩ := hs.tracked
        exact ⟨live, htracked, fun h hh => hlive h (hp.mem_iff.mpr hh)⟩ }
  nodup hs := hs.nodup
  allocate {_ _ s taskId type size w s' info} hs hok hstep := by
    have hstep : allocateInfo pid d s taskId type size w = (s', info) := hstep
    have halloc := hs.allocate hlt hok
    rw [hstep] at halloc
    rcases halloc with ⟨hinfo, hs'⟩ | ⟨hsize, hgrant⟩
    · simp only at hinfo
      subst hinfo
      exact Or.inl ⟨by decide, by decide, hs'⟩
    · exact Or.inr ⟨fun _ => hsize, hgrant⟩
  deallocate hs hid hok := hs.deallocate hid hok
  ignore hs hvoid := hs.deallocate_void hvoid _
  unheld hs hvoid h hh hid := by
    obtain ⟨live, htracked, hlive⟩ := hs.tracked
    obtain ⟨b, hb, ⟨rfl, rfl⟩, hbid, _⟩ := hlive h hh
    have hne := h.pos.ne'
    rw [hid] at hne hbid
    have hlookup := htracked.lookup hb (List.mem_cons_self ..)
    rw [hbid] at hlookup
    rw [void, keyOf, if_pos hne] at hvoid
    rw [hvoid] at hlookup
    cases hlookup
  write _ _ _ _ := rfl
  read _ _ _ _ := rfl

end ServiceLayer
end DxRt
