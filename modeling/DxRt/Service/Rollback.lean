import DxRt.Memory.Undo
import DxRt.Service.Aliases

/-! lib/dxrt_service/dxrt_service_v2.cpp: `HandleAllocate` gives a block back at once when there is
    no shared memory for it.

    The block has been cut from one end of the pool and entered into one of the two registries.
    `DeallocateAddress` looks it up by process and address only; as no other owner has the address,
    it finds the entry that was made last, and the pool frees the block. So the rollback undoes the
    allocation exactly when `Deallocate` does, and the registries are as they were but for entries
    with an empty address set. -/

namespace DxRt
open Memory MemoryConfig MemoryService

namespace Service

/-- The end of the pool that `HandleAllocate` cuts from. -/
def poolEnd (forModel : Bool) : PoolEnd := if forModel then .high else .low

/-- Who the block is recorded for. -/
def ownerOf (pid taskId : ℤ) : Owner := if taskId ≠ -1 then .task pid taskId else .legacy pid

@[simp] theorem ownerOf_pid (pid taskId : ℤ) : (ownerOf pid taskId).pid = pid := by
  rw [ownerOf]
  split_ifs <;> rfl

end Service

namespace MemoryService
variable {s t : MemoryService} {o : Owner} {a size : ℕ}

/-- `t` has one record more than `s`. -/
def Recorded (s : MemoryService) (o : Owner) (a : ℕ) (t : MemoryService) : Prop :=
  ∀ o' a', t.Owns o' a' ↔ s.Owns o' a' ∨ o' = o ∧ a' = a

/-- The registry entry of an owner. -/
def track : Owner → MemoryService → ℕ → MemoryService
  | .legacy pid => fun s => s.trackLegacy pid
  | .task pid taskId => fun s => s.trackTask pid taskId

theorem recorded_track (o : Owner) (s : MemoryService) (a : ℕ) :
    Recorded s o a (track o s a) ∧ (track o s a).mem = s.mem := by
  cases o with
  | legacy pid => exact ⟨owns_trackLegacy s pid a, rfl⟩
  | task pid taskId => exact ⟨owns_trackTask s pid taskId a, rfl⟩

/-- The address is the one of the pool, unless the request is turned away before. -/
theorem allocateWith_granted_iff {alloc : Memory → ℕ → Memory × ℕ} :
    (s.allocateWith alloc (track o) size).2 ≠ NEG1 ↔
      s.admits size = true ∧ (alloc s.mem size).2 ≠ NEG1 := by
  rw [allocateWith]
  split_ifs with hadm
  · simp [hadm]
  · simp [hadm]

/-- A granted request: the pool has cut the block, and the address is recorded. -/
theorem allocateWith_granted {alloc : Memory → ℕ → Memory × ℕ} (hadm : s.admits size = true)
    (hne : (alloc s.mem size).2 ≠ NEG1) :
    (s.allocateWith alloc (track o) size).2 = (alloc s.mem size).2 ∧
      (s.allocateWith alloc (track o) size).1.mem = (alloc s.mem size).1 ∧
      Recorded s o (alloc s.mem size).2 (s.allocateWith alloc (track o) size).1 := by
  have hrec := recorded_track o { s with mem := (alloc s.mem size).1 } (alloc s.mem size).2
  simp only [allocateWith, if_pos hadm, if_pos hne, true_and]
  exact ⟨hrec.2, hrec.1⟩

/-- The address recorded last is taken out of the record again, and its block freed. -/
theorem deallocateAddress_recorded (hrec : Recorded s o a t) :
    (t.deallocateAddress a o.pid).1.mem = t.mem.deallocate a ∧
      ((∀ o', ¬ s.Owns o' a) →
        ∀ o' a', (t.deallocateAddress a o.pid).1.Owns o' a' ↔ s.Owns o' a') := by
  have howns : t.Owns o a := (hrec o a).mpr (Or.inr ⟨rfl, rfl⟩)
  obtain ⟨-, o₁, howns₁, htaken⟩ := deallocateAddress_taken howns
  refine ⟨htaken.mem, fun hfresh o' a' => ?_⟩
  have hunique : ∀ o', t.Owns o' a → o' = o₁ := by
    have honly : ∀ o', t.Owns o' a → o' = o := fun o' ho' =>
      ((hrec o' a).mp ho').elim (fun h => absurd h (hfresh o')) And.left
    exact fun o' ho' => (honly o' ho').trans (honly o₁ howns₁).symm
  rw [htaken.recorded hunique, hrec]
  constructor
  · rintro ⟨ho' | ⟨-, rfl⟩, hne⟩
    · exact ho'
    · exact absurd rfl hne
  · intro ho'
    refine ⟨Or.inl ho', ?_⟩
    rintro rfl
    exact hfresh o' ho'

/-- The address of a block whose allocation can be undone is not recorded yet. -/
theorem Owned.fresh_of_undoable (h : Owned s) {d : PoolEnd} (hpos : 1 ≤ size)
    (hn : size < 2 ^ 64) (hundo : Undoable d s.mem size)
    (hne : (d.allocate s.mem size).2 ≠ NEG1) : ∀ o, ¬ s.Owns o (d.allocate s.mem size).2 := by
  intro o ho
  have hstart := (h.exact _).mp ⟨o, ho⟩
  by_cases hfit : size + 4095 < 2 ^ 64
  · rcases allocate_carves h.pool d hpos hfit with heq | hc
    · exact hne (congrArg Prod.snd heq)
    · exact Carved.fresh hc hstart
  by_cases hz : ZeroFits s.mem
  · rcases hundo with hlt | hnot | ⟨rfl, hlast⟩
    · exact hfit hlt
    · exact hnot hz
    · -- the empty block lies behind the last node
      obtain ⟨e, hfind⟩ := scan_zero (d := .high) hz
      have hzero : alignSize size = 0 := (alignSize_eq_zero hn).mpr (by omega)
      rw [PoolEnd.allocate, backwardAllocate_empty h.pool hzero hfind] at hstart
      obtain ⟨b, hb, hstart⟩ := List.mem_map.mp hstart
      have hmem := (s.mem.pool.find?_eq_some _ _).mp ((mem_blocks_iff h.pool).mp hb)
      obtain ⟨-, hsize, hend⟩ := h.pool.layout.tiles.bounds _ hmem
      have hlast := hlast e (bestNode_of_find hfind)
      simp only at hstart hsize hend
      omega
  · exact hne (congrArg Prod.snd (allocate_zeroless h.pool d hz size))

end MemoryService

namespace Service

/-- Whichever of the four functions `HandleAllocate` chooses. -/
theorem allocateFor_eq (mem : MemoryService) (size : ℕ) (pid taskId : ℤ) (forModel : Bool) :
    allocateFor mem size pid taskId forModel =
      mem.allocateWith (poolEnd forModel).allocate (track (ownerOf pid taskId)) size := by
  rw [allocateFor, ownerOf]
  split_ifs with htask hmodel hmodel
  · rw [hmodel]
    rfl
  · rw [Bool.eq_false_of_not_eq_true hmodel]
    rfl
  · rw [hmodel]
    rfl
  · rw [Bool.eq_false_of_not_eq_true hmodel]
    rfl

theorem allocateFor_granted_iff {mem : MemoryService} {size : ℕ} {pid taskId : ℤ}
    {forModel : Bool} : (allocateFor mem size pid taskId forModel).2 ≠ NEG1 ↔
      mem.admits size = true ∧ ((poolEnd forModel).allocate mem.mem size).2 ≠ NEG1 := by
  rw [allocateFor_eq]
  exact allocateWith_granted_iff

end Service

namespace ShmService
open Service
variable {p : Policy} {n : ℕ} {s : ShmService p n} {pid : ℤ} {d : Fin n} {taskId : ℤ} {size : ℕ}
  {forModel : Bool}

/-- The pool of the device is as it was, both registries record the same, and nothing else has
    changed in the service. -/
structure RolledBack (s : ShmService p n) (d : Fin n) (t : ShmService p n) : Prop where
  pool : (t.service.mem d).mem = (s.service.mem d).mem
  records : ∀ o a, (t.service.mem d).Owns o a ↔ (s.service.mem d).Owns o a
  others : t.service = s.service.setMem d (t.service.mem d)

/-- Whenever the pool has granted the block and `CreateSharedMemory` throws, `HandleAllocate`
    leaves the service as it was. -/
def RollsBack (s : ShmService p n) (pid : ℤ) (d : Fin n) (taskId : ℤ) (size : ℕ)
    (forModel : Bool) : Prop :=
  ∀ os code, (allocateFor (s.service.mem d) size pid taskId forModel).2 ≠ NEG1 →
    (s.memfd.createSharedMemory size os).2 = .error code →
    s.RolledBack d (s.handleAllocate pid d taskId size forModel os).1

/-- What is left of an allocation after `CreateSharedMemory` has thrown. -/
theorem handleAllocate_throws (pid taskId : ℤ) {os : Syscalls} {code : ℤ}
    (hadm : (s.service.mem d).admits size = true)
    (hne : ((poolEnd forModel).allocate (s.service.mem d).mem size).2 ≠ NEG1)
    (hshm : (s.memfd.createSharedMemory size os).2 = .error code) :
    ∃ mem, (s.handleAllocate pid d taskId size forModel os).1.service = s.service.setMem d mem ∧
      mem.mem = ((poolEnd forModel).allocate (s.service.mem d).mem size).1.deallocate
        ((poolEnd forModel).allocate (s.service.mem d).mem size).2 ∧
      ((∀ o, ¬ (s.service.mem d).Owns o
          ((poolEnd forModel).allocate (s.service.mem d).mem size).2) →
        ∀ o a, mem.Owns o a ↔ (s.service.mem d).Owns o a) := by
  obtain ⟨haddr, hmem, hrec⟩ :=
    allocateWith_granted (o := ownerOf pid taskId) hadm hne
  obtain ⟨hpool, hrecords⟩ := deallocateAddress_recorded hrec
  rw [ownerOf_pid] at hpool hrecords
  refine ⟨_, ?_, hpool.trans (congrArg (Memory.deallocate · _) hmem), hrecords⟩
  have hgranted : (allocateFor (s.service.mem d) size pid taskId forModel).2 ≠ NEG1 :=
    allocateFor_granted_iff.mpr ⟨hadm, hne⟩
  simp only [handleAllocate, if_neg hgranted, Service.handleAllocate, hshm]
  rw [allocateFor_eq, haddr]

/-- The rollback of `HandleAllocate` works exactly if the request is turned away, or `Deallocate`
    undoes the allocation. -/
theorem rollsBack_iff (h : Owned (s.service.mem d)) (hpos : 1 ≤ size) (hn : size < 2 ^ 64) :
    s.RollsBack pid d taskId size forModel ↔ (s.service.mem d).admits size = false ∨
      Undoable (poolEnd forModel) (s.service.mem d).mem size := by
  have hsame : ∀ m, (s.service.setMem d m).mem d = m := fun m => Function.update_self ..
  cases hadm : (s.service.mem d).admits size with
  | false =>
    refine iff_of_true (fun os code hne _ => ?_) (Or.inl rfl)
    rw [allocateFor_granted_iff, hadm] at hne
    cases hne.1
  | true =>
    rw [or_iff_right (by simp)]
    constructor
    · intro hback
      refine undoable_of_undone h.pool hn fun hne => ?_
      have hshm : (s.memfd.createSharedMemory size ⟨-1, 0, false⟩).2 =
          .error MemFDErrorCode.createFailed.toInt := by
        rw [MemFDService.createSharedMemory, if_neg (by omega : size ≠ 0)]
        rfl
      obtain ⟨mem, hservice, hpool, -⟩ := handleAllocate_throws pid taskId hadm hne hshm
      have hrolled := (hback _ _ (allocateFor_granted_iff.mpr ⟨hadm, hne⟩) hshm).pool
      rwa [hservice, hsame, hpool] at hrolled
    · intro hundo os code hgranted hshm
      obtain ⟨-, hne⟩ := allocateFor_granted_iff.mp hgranted
      obtain ⟨mem, hservice, hpool, hrecords⟩ := handleAllocate_throws pid taskId hadm hne hshm
      refine ⟨?_, ?_, ?_⟩
      · rw [hservice, hsame, hpool]
        exact undone_of_undoable h.pool hpos hn hundo hne
      · rw [hservice, hsame]
        exact hrecords (h.fresh_of_undoable hpos hn hundo hne)
      · rw [hservice, hsame]

/-- A block that is freed at once leaves no trace exactly if the request is undoable; freeing, in
    any order, what a run of sound requests has obtained restores the pool; and the rollback of
    `HandleAllocate` restores pool and registries exactly if the request is turned away or
    undoable. -/
theorem free_undoes_allocate {m : Memory} (h : PoolInv m) (e : PoolEnd)
    (howned : Owned (s.service.mem d)) (hpos : 1 ≤ size) (hn : size < 2 ^ 64) :
    (Undone e m size ↔ Undoable e m size) ∧
    (∀ requests order, (∀ r ∈ requests, 1 ≤ r.2) → NoneEmpty m requests →
      List.Perm order (allocateAll m requests).2 →
      freeAll (allocateAll m requests).1 order = m) ∧
    ∀ pid taskId forModel,
      s.RollsBack pid d taskId size forModel ↔ (s.service.mem d).admits size = false ∨
        Undoable (poolEnd forModel) (s.service.mem d).mem size := by
  refine ⟨⟨undoable_of_undone h hn, undone_of_undoable h hpos hn⟩, ?_, fun _ _ _ =>
    rollsBack_iff howned hpos hn⟩
  intro requests order hreq hok horder
  exact ((above_allocateAll h hreq hok).perm horder.symm).freeAll h

/-- A service with one device. -/
def oneDevice (memSize : ℕ) : ShmService .fifo 1 :=
  ⟨Service.init .fifo (fun _ => 0) (fun _ => memSize), ⟨1, .empty⟩⟩

theorem free_undoes_allocate_one_device :
    Undone .high (Memory.ofInfo 65536) 5000 ∧
      freeAll (allocateAll (Memory.ofInfo 65536) [(.low, 5000), (.high, 1), (.low, 4096)]).1
        [61440, 8192, 0] = Memory.ofInfo 65536 ∧
      (oneDevice 65536).RollsBack 1 0 7 5000 true := by
  have hinv : PoolInv (Memory.ofInfo 65536) := poolInv_ofInfo (by decide) (by decide)
  have hok : NoneEmpty (Memory.ofInfo 65536) [(.low, 5000), (.high, 1), (.low, 4096)] :=
    ⟨Or.inl (by decide), Or.inl (by decide), Or.inl (by decide), trivial⟩
  have howned : Owned ((oneDevice 65536).service.mem 0) := owned_ofInfo (by decide) (by decide)
  obtain ⟨hone, hrun, hback⟩ := free_undoes_allocate hinv .high howned
    (by decide : 1 ≤ 5000) (by decide)
  exact ⟨hone.mpr (Or.inl (by decide)), hrun _ _ (by decide) hok (by decide +kernel),
    (hback 1 7 true).mpr (Or.inr (Or.inl (by decide)))⟩

/-- A device of 2^64 - 2 bytes: the whole of it is asked for, and the rounded size is zero. -/
theorem wrapping_size_not_rolled_back :
    ¬ Undone .low (Memory.ofInfo (2 ^ 64 - 2)) (2 ^ 64 - 2) ∧
      ¬ (oneDevice (2 ^ 64 - 2)).RollsBack 1 0 (-1) (2 ^ 64 - 2) false := by
  refine ⟨fun hundone => ?_, fun hback => ?_⟩
  · exact absurd (hundone (by decide +kernel)) (by decide +kernel)
  · have hpool := (hback ⟨-1, 0, false⟩ 1 (by decide +kernel) (by decide +kernel)).pool
    exact absurd hpool (by decide +kernel)

end ShmService
end DxRt
