import DxRt.Lib.Run
import DxRt.Lib.SortedMap

/-! lib/dxrt_service/dxrt_service_v2.cpp, lib/dynamic_ipc/shm: shared memory blocks and DMA.

    The service keeps, per device and process, a table from address to shared memory block; a block
    is entered under its absolute address, its offset and its block id. `HandleDMAWrite` and
    `HandleDMARead` resolve a block in that table, check the requested range against its size and
    hand a `dxrt_meminfo_t` to the device. The check adds two 64-bit numbers, and the result is
    stored in 32-bit fields: the transfer is confined to the block exactly when neither the sum nor
    the fields overflow. -/

namespace DxRt

/-- The fields of `SharedMemoryInfo` that the table is built from; `ptr` is the host address of the
    mapping, 0 for none. -/
structure SharedMemoryInfo where
  blockId : ℤ
  size : ℕ
  ptr : ℕ
  physAddrBase : ℕ
  physAddrOffset : ℕ
  fd : ℤ
  deriving DecidableEq

/-- `phys_addr_base + phys_addr_offset` on `uint64_t`. -/
def SharedMemoryInfo.physAddr (info : SharedMemoryInfo) : ℕ :=
  (info.physAddrBase + info.physAddrOffset) % 2 ^ 64

structure SharedMemHandle where
  fd : ℤ
  ptr : ℕ
  size : ℕ
  physAddrOffset : ℕ
  deriving DecidableEq

/-- `_sharedMemoryHandles`: device, process, address. -/
abbrev HandleTable := SortedMap ℤ (SortedMap ℤ (SortedMap ℕ SharedMemHandle))

namespace HandleTable

/-- `static_cast<uint64_t>` of an `int64_t`. -/
def toUint64 (i : ℤ) : ℕ := (i % 2 ^ 64).toNat

/-- The address map of one process on one device, empty when there is none. -/
def addrMap (table : HandleTable) (deviceId pid : ℤ) : SortedMap ℕ SharedMemHandle :=
  ((table.find? deviceId).getD .empty).find? pid |>.getD .empty

/-- `_sharedMemoryHandles[deviceId][pid] = addrMap`. -/
def setAddrMap (table : HandleTable) (deviceId pid : ℤ) (addrMap : SortedMap ℕ SharedMemHandle) :
    HandleTable :=
  table.insert deviceId (((table.find? deviceId).getD .empty).insert pid addrMap)

/-- Removes the entry of a process, and the entry of a device that has no process left. -/
def erasePid (table : HandleTable) (deviceId pid : ℤ) : HandleTable :=
  let pids := ((table.find? deviceId).getD .empty).erase pid
  if pids.isEmpty then table.erase deviceId else table.insert deviceId pids

/-- `TrackSharedMemoryHandle`: absolute address, offset and block id lead to the block. -/
def trackSharedMemoryHandle (table : HandleTable) (deviceId pid : ℤ) (info : SharedMemoryInfo) :
    HandleTable :=
  let handle : SharedMemHandle := ⟨info.fd, info.ptr, info.size, info.physAddrOffset⟩
  let addrMap := ((table.addrMap deviceId pid).insert info.physAddr handle).insert
    info.physAddrOffset handle
  table.setAddrMap deviceId pid
    (if 0 < info.blockId then addrMap.insert (toUint64 info.blockId) handle else addrMap)

def tryGetSharedMemoryHandle (table : HandleTable) (deviceId pid : ℤ) (address : ℕ) :
    Option SharedMemHandle :=
  (table.addrMap deviceId pid).find? address

/-- `TryResolveSharedMemoryHandle`: the block is taken out, under all its addresses. -/
def tryResolveSharedMemoryHandle (table : HandleTable) (deviceId pid : ℤ) (address : ℕ) :
    HandleTable × Option SharedMemHandle :=
  match table.tryGetSharedMemoryHandle deviceId pid address with
  | none => (table, none)
  | some handle =>
    let left := (table.addrMap deviceId pid).filterMapVal fun h =>
      if h.physAddrOffset = handle.physAddrOffset then none else some h
    (if left.isEmpty then table.erasePid deviceId pid else table.setAddrMap deviceId pid left,
      some handle)

def releaseAllSharedMemoryHandlesForProcess (table : HandleTable) (deviceId pid : ℤ) :
    HandleTable :=
  if ((table.find? deviceId).getD .empty).contains pid then table.erasePid deviceId pid else table

end HandleTable

/-! ### DMA requests -/

/-- `dxrt_meminfo_t`; `offset` and `size` are 32-bit fields. -/
structure MemInfo where
  data : ℕ
  base : ℕ
  offset : ℕ
  size : ℕ
  deriving DecidableEq

/-- The return code, the host range invalidated first, and what is handed to the device. -/
structure DmaOutcome where
  ret : ℤ
  invalidated : Option (ℕ × ℕ)
  meminfo : Option MemInfo
  deriving DecidableEq

/-- What the DMA handlers read of the service: the table, `mem_addr` of each device, and
    `_recoveryInProgress`. -/
structure DmaContext where
  table : HandleTable
  memAddr : List ℕ
  recoveryInProgress : Bool

def EINVAL : ℤ := 22
def EAGAIN : ℤ := 11

namespace DmaContext
open HandleTable

/-- The common body of the two handlers; only a write invalidates the host range first. -/
def handleDMA (write : Bool) (s : DmaContext) (pid deviceId blockId : ℤ) (blockOffset size : ℕ) :
    DmaOutcome :=
  if size = 0 then ⟨0, none, none⟩
  else if deviceId < 0 ∨ (s.memAddr.length : ℤ) ≤ deviceId then ⟨-EINVAL, none, none⟩
  else if s.recoveryInProgress then ⟨-EAGAIN, none, none⟩
  else
    match s.table.tryGetSharedMemoryHandle deviceId pid (toUint64 blockId) with
    | none => ⟨-EINVAL, none, none⟩
    | some handle =>
      if handle.ptr = 0 ∨ handle.size < (blockOffset + size) % 2 ^ 64 then ⟨-EINVAL, none, none⟩
      else
        let dataPtr := (handle.ptr + blockOffset) % 2 ^ 64
        let deviceOffset := (handle.physAddrOffset + blockOffset) % 2 ^ 64
        ⟨0, if write then some (dataPtr, size) else none,
          some ⟨dataPtr, s.memAddr.getD deviceId.toNat 0, deviceOffset % 2 ^ 32, size % 2 ^ 32⟩⟩

def handleDMAWrite (s : DmaContext) (pid deviceId blockId : ℤ) (blockOffset size : ℕ) :
    DmaOutcome :=
  handleDMA true s pid deviceId blockId blockOffset size

def handleDMARead (s : DmaContext) (pid deviceId blockId : ℤ) (blockOffset size : ℕ) :
    DmaOutcome :=
  handleDMA false s pid deviceId blockId blockOffset size

end DmaContext

/-! ### Reachable tables -/

namespace HandleTable

/-- What the mapping of a new block and the allocation of its device memory promise: the mapping is
    not at address 0 and lies within the address space, and the device offset is a 64-bit number. -/
structure Mapped (ptr size physAddrOffset : ℕ) : Prop where
  nonnull : 0 < ptr
  fits : ptr + size ≤ 2 ^ 64
  offset : physAddrOffset < 2 ^ 64

inductive Step : HandleTable → HandleTable → Prop where
  | track (table : HandleTable) (deviceId pid : ℤ) (info : SharedMemoryInfo)
      (hinfo : Mapped info.ptr info.size info.physAddrOffset) :
      Step table (table.trackSharedMemoryHandle deviceId pid info)
  | resolve (table : HandleTable) (deviceId pid : ℤ) (address : ℕ) :
      Step table (table.tryResolveSharedMemoryHandle deviceId pid address).1
  | releaseAll (table : HandleTable) (deviceId pid : ℤ) :
      Step table (table.releaseAllSharedMemoryHandlesForProcess deviceId pid)

theorem addrMap_setAddrMap (table : HandleTable) (deviceId pid : ℤ)
    (m : SortedMap ℕ SharedMemHandle) (deviceId' pid' : ℤ) :
    (table.setAddrMap deviceId pid m).addrMap deviceId' pid' =
      if deviceId' = deviceId ∧ pid' = pid then m else table.addrMap deviceId' pid' := by
  simp only [addrMap, setAddrMap, SortedMap.find?_insert]
  by_cases hd : deviceId' = deviceId
  · subst hd
    rw [if_pos rfl, Option.getD_some, SortedMap.find?_insert]
    by_cases hp : pid' = pid <;> simp [hp]
  · simp [hd]

theorem addrMap_erasePid (table : HandleTable) (deviceId pid deviceId' pid' : ℤ) :
    (table.erasePid deviceId pid).addrMap deviceId' pid' =
      if deviceId' = deviceId ∧ pid' = pid then .empty else table.addrMap deviceId' pid' := by
  have hdev : ((table.erasePid deviceId pid).find? deviceId').getD .empty =
      if deviceId' = deviceId then ((table.find? deviceId).getD .empty).erase pid
        else (table.find? deviceId').getD .empty := by
    rw [erasePid]
    by_cases hd : deviceId' = deviceId
    · subst hd
      rw [if_pos rfl]
      split_ifs with hempty
      · rw [SortedMap.find?_erase, if_pos rfl]
        exact (SortedMap.ext (List.isEmpty_iff.mp hempty)).symm
      · rw [SortedMap.find?_insert, if_pos rfl, Option.getD_some]
    · rw [if_neg hd]
      split_ifs
      · rw [SortedMap.find?_erase, if_neg hd]
      · rw [SortedMap.find?_insert, if_neg hd]
  rw [addrMap, hdev]
  by_cases hd : deviceId' = deviceId
  · subst hd
    rw [if_pos rfl, SortedMap.find?_erase]
    by_cases hp : pid' = pid
    · simp [hp]
    · rw [if_neg hp, if_neg fun h => hp h.2, addrMap]
  · rw [if_neg hd, if_neg fun h => hd h.1, addrMap]

/-- Every block in the table is mapped. -/
def AllMapped (table : HandleTable) : Prop :=
  ∀ deviceId pid address handle,
    table.tryGetSharedMemoryHandle deviceId pid address = some handle →
    Mapped handle.ptr handle.size handle.physAddrOffset

/-- An address map is replaced by one whose blocks are mapped. -/
theorem AllMapped.update {table table' : HandleTable} (h : AllMapped table) {deviceId pid : ℤ}
    {m : SortedMap ℕ SharedMemHandle}
    (htable : ∀ deviceId' pid', table'.addrMap deviceId' pid' =
      if deviceId' = deviceId ∧ pid' = pid then m else table.addrMap deviceId' pid')
    (hm : ∀ address handle, m.find? address = some handle →
      Mapped handle.ptr handle.size handle.physAddrOffset) : AllMapped table' := by
  intro deviceId' pid' address handle hget
  rw [tryGetSharedMemoryHandle, htable] at hget
  split_ifs at hget
  · exact hm address handle hget
  · exact h deviceId' pid' address handle hget

theorem allMapped_step (table table' : HandleTable) (hst : Step table table')
    (h : AllMapped table) : AllMapped table' := by
  cases hst with
  | track deviceId pid info hinfo =>
    refine h.update (addrMap_setAddrMap table deviceId pid _) fun address handle hget => ?_
    -- a block found is the new one, or was there before
    have hcases : handle = ⟨info.fd, info.ptr, info.size, info.physAddrOffset⟩ ∨
        (table.addrMap deviceId pid).find? address = some handle := by
      split_ifs at hget <;> simp only [SortedMap.find?_insert] at hget <;> split_ifs at hget
      all_goals first
        | exact Or.inl (Option.some.inj hget).symm
        | exact Or.inr hget
    rcases hcases with rfl | hold
    · exact hinfo
    · exact h deviceId pid address handle hold
  | resolve deviceId pid address =>
    rw [tryResolveSharedMemoryHandle]
    cases hget : table.tryGetSharedMemoryHandle deviceId pid address with
    | none => exact h
    | some handle =>
      simp only
      split_ifs
      · exact h.update (addrMap_erasePid table deviceId pid) fun _ _ hfind => absurd hfind nofun
      · refine h.update (addrMap_setAddrMap table deviceId pid _) fun address' handle' hfind => ?_
        rw [SortedMap.find?_filterMapVal] at hfind
        obtain ⟨handle'', hold, hkeep⟩ := Option.bind_eq_some_iff.mp hfind
        split_ifs at hkeep
        cases hkeep
        exact h deviceId pid address' handle' hold
  | releaseAll deviceId pid =>
    rw [releaseAllSharedMemoryHandlesForProcess]
    split_ifs
    · exact h.update (addrMap_erasePid table deviceId pid) fun _ _ hfind => absurd hfind nofun
    · exact h

/-- The table of a service that has just started, after any sequence of operations. -/
theorem allMapped_reachable {table : HandleTable}
    (hrun : Relation.ReflTransGen Step .empty table) : AllMapped table :=
  Run.invariant allMapped_step hrun fun _ _ _ _ hget => absurd hget nofun

end HandleTable

/-! ### Confinement -/

/-- The transfer stays inside the block, and the 32-bit fields say what was asked for. -/
structure Confined (handle : SharedMemHandle) (blockOffset size : ℕ) (meminfo : MemInfo) : Prop where
  inBlock : blockOffset + size ≤ handle.size
  hostStart : meminfo.data = handle.ptr + blockOffset
  hostRange : handle.ptr ≤ meminfo.data ∧ meminfo.data + size ≤ handle.ptr + handle.size
  offset : meminfo.offset = handle.physAddrOffset + blockOffset
  size : meminfo.size = size

namespace DmaContext
open HandleTable

/-- What the handlers have checked when they hand something over. -/
theorem handleDMA_some {write : Bool} {s : DmaContext} {pid deviceId blockId : ℤ}
    {blockOffset size : ℕ} {meminfo : MemInfo}
    (h : (handleDMA write s pid deviceId blockId blockOffset size).meminfo = some meminfo) :
    ∃ handle, s.table.tryGetSharedMemoryHandle deviceId pid (toUint64 blockId) = some handle ∧
      0 < size ∧ (blockOffset + size) % 2 ^ 64 ≤ handle.size ∧
      meminfo.data = (handle.ptr + blockOffset) % 2 ^ 64 ∧
      meminfo.offset = (handle.physAddrOffset + blockOffset) % 2 ^ 64 % 2 ^ 32 ∧
      meminfo.size = size % 2 ^ 32 := by
  rw [handleDMA] at h
  by_cases hsize : size = 0
  · rw [if_pos hsize] at h
    cases h
  rw [if_neg hsize] at h
  by_cases hdev : deviceId < 0 ∨ (s.memAddr.length : ℤ) ≤ deviceId
  · rw [if_pos hdev] at h
    cases h
  rw [if_neg hdev] at h
  by_cases hrec : s.recoveryInProgress = true
  · rw [if_pos hrec] at h
    cases h
  rw [if_neg hrec] at h
  cases hget : s.table.tryGetSharedMemoryHandle deviceId pid (toUint64 blockId) with
  | none =>
    rw [hget] at h
    cases h
  | some handle =>
    simp only [hget] at h
    by_cases hbound : handle.ptr = 0 ∨ handle.size < (blockOffset + size) % 2 ^ 64
    · rw [if_pos hbound] at h
      cases h
    · rw [if_neg hbound] at h
      rw [not_or, not_lt] at hbound
      cases h
      exact ⟨handle, rfl, Nat.pos_of_ne_zero hsize, hbound.2, rfl, rfl, rfl⟩

/-- For every reachable table and all 64-bit arguments, when a handler hands a `dxrt_meminfo_t` to
    the device: the transfer is confined to the resolved block exactly if the end of the range does
    not leave 64 bits and device offset and size fit into 32 bits. -/
theorem dma_confinement {s : DmaContext}
    (hrun : Relation.ReflTransGen HandleTable.Step .empty s.table) (write : Bool)
    {pid deviceId blockId : ℤ} {blockOffset size : ℕ} (hoffset : blockOffset < 2 ^ 64)
    (hsize : size < 2 ^ 64) {meminfo : MemInfo}
    (h : (if write then handleDMAWrite s pid deviceId blockId blockOffset size
      else handleDMARead s pid deviceId blockId blockOffset size).meminfo = some meminfo) :
    ∃ handle, s.table.tryGetSharedMemoryHandle deviceId pid (toUint64 blockId) = some handle ∧
      (Confined handle blockOffset size meminfo ↔ blockOffset + size < 2 ^ 64 ∧
        handle.physAddrOffset + blockOffset < 2 ^ 32 ∧ size < 2 ^ 32) := by
  have hdma : (handleDMA write s pid deviceId blockId blockOffset size).meminfo = some meminfo := by
    cases write <;> exact h
  obtain ⟨handle, hget, hpos, hcheck, hdata, hoff, hsz⟩ := handleDMA_some hdma
  obtain ⟨hnonnull, hfits, hphys⟩ := allMapped_reachable hrun _ _ _ _ hget
  refine ⟨handle, hget, fun hc => ?_, fun ⟨hend, hdev, hsize32⟩ => ?_⟩
  · have hin := hc.inBlock
    have hoffset32 : meminfo.offset < 2 ^ 32 := hoff ▸ Nat.mod_lt _ (by decide)
    have hsize32 : meminfo.size < 2 ^ 32 := hsz ▸ Nat.mod_lt _ (by decide)
    rw [hc.offset] at hoffset32
    rw [hc.size] at hsize32
    exact ⟨by omega, hoffset32, hsize32⟩
  · rw [Nat.mod_eq_of_lt hend] at hcheck
    have hstart : meminfo.data = handle.ptr + blockOffset := by
      rw [hdata, Nat.mod_eq_of_lt (by omega)]
    refine ⟨hcheck, hstart, ⟨by omega, by omega⟩, ?_, ?_⟩
    · rw [hoff, Nat.mod_eq_of_lt (by omega : handle.physAddrOffset + blockOffset < 2 ^ 64),
        Nat.mod_eq_of_lt hdev]
    · rw [hsz, Nat.mod_eq_of_lt hsize32]

/-- One block of 8192 bytes, mapped at host address `2^30`, at device offset 4096. -/
def oneBlock : DmaContext where
  table := HandleTable.trackSharedMemoryHandle .empty 0 42 ⟨1, 8192, 2 ^ 30, 0, 4096, 5⟩
  memAddr := [0]
  recoveryInProgress := false

theorem oneBlock_reachable : Relation.ReflTransGen HandleTable.Step .empty oneBlock.table :=
  Relation.ReflTransGen.refl.tail (.track .empty 0 42 ⟨1, 8192, 2 ^ 30, 0, 4096, 5⟩
    ⟨by decide, by decide, by decide⟩)

/-- Writing the second page of the block is confined. -/
theorem dma_confinement_second_page :
    ∃ handle, oneBlock.table.tryGetSharedMemoryHandle 0 42 1 = some handle ∧
      Confined handle 4096 4096 ⟨2 ^ 30 + 4096, 0, 8192, 4096⟩ := by
  have h : (if true then handleDMAWrite oneBlock 42 0 1 4096 4096
      else handleDMARead oneBlock 42 0 1 4096 4096).meminfo =
        some ⟨2 ^ 30 + 4096, 0, 8192, 4096⟩ := by decide +kernel
  obtain ⟨handle, hget, hiff⟩ :=
    dma_confinement oneBlock_reachable true (by decide) (by decide) h
  refine ⟨handle, hget, hiff.mpr ⟨by decide, ?_, by decide⟩⟩
  have heq : oneBlock.table.tryGetSharedMemoryHandle 0 42 (HandleTable.toUint64 1) =
      some ⟨5, 2 ^ 30, 8192, 4096⟩ := by decide +kernel
  rw [heq] at hget
  cases hget
  decide

/-- An offset 4096 below `2^64` wraps: the check passes, and the device is given the page before
    the block, in host memory and in device memory. -/
theorem dma_confinement_wrapping_offset :
    Relation.ReflTransGen HandleTable.Step .empty oneBlock.table ∧
      oneBlock.table.tryGetSharedMemoryHandle 0 42 1 = some ⟨5, 2 ^ 30, 8192, 4096⟩ ∧
      (handleDMAWrite oneBlock 42 0 1 (2 ^ 64 - 4096) 8192).meminfo =
        some ⟨2 ^ 30 - 4096, 0, 0, 8192⟩ ∧
      ¬ Confined ⟨5, 2 ^ 30, 8192, 4096⟩ (2 ^ 64 - 4096) 8192 ⟨2 ^ 30 - 4096, 0, 0, 8192⟩ :=
  ⟨oneBlock_reachable, by decide +kernel, by decide +kernel,
    fun hc => absurd hc.inBlock (by decide)⟩

end DmaContext
end DxRt
