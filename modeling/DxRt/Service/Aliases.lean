import DxRt.Memory.Isolation
import DxRt.Service.Handlers

/-! lib/dynamic_ipc/shm/memfd_service.cpp and the handle table of lib/dxrt_service: one block, three
    keys.

    A block can be named by its block id, by its offset in the device memory and by its absolute
    address, and all three are keys of one map per process and device. The block id is a counter of
    the whole service, the offset is chosen by the pool and the base comes from the device: nothing
    keeps them apart. As long as a new block brings three numbers that no other live block of the
    process uses, every key leads to its own block; the first time it does not, a key of an older
    block is overwritten. -/

namespace DxRt

/-! ### The shared memory service -/

/-- `MemFDErrorCode`: what `CreateSharedMemory` throws. -/
inductive MemFDErrorCode where
  | createFailed | invalidSize | mmapFailed | sealFailed
  deriving DecidableEq

def MemFDErrorCode.toInt : MemFDErrorCode → ℤ
  | .createFailed => 1
  | .invalidSize => 3
  | .mmapFailed => 9
  | .sealFailed => 14

/-- The answers of `SharedMemorySyscallAdapter`: -1 for no descriptor, 0 for no mapping. -/
structure Syscalls where
  createMemFD : ℤ
  mapMemFD : ℕ
  sealMemFD : Bool
  deriving DecidableEq

/-- `MemFDService` with the counter of block ids. -/
structure MemFDService where
  blockIdCounter : ℕ
  memories : SortedMap ℤ SharedMemoryInfo

namespace MemFDService

/-- `static_cast<int>` of a `uint64_t`. -/
def toInt32 (x : ℕ) : ℤ := (x : ℤ).bmod (2 ^ 32)

theorem toInt32_of_lt {x : ℕ} (h : x < 2 ^ 31) : toInt32 x = x := by
  unfold toInt32
  rw [Int.bmod_def]
  push_cast
  split_ifs <;> omega

def createSharedMemory (m : MemFDService) (size : ℕ) (os : Syscalls) :
    MemFDService × Except ℤ SharedMemoryInfo :=
  if size = 0 then (m, .error MemFDErrorCode.invalidSize.toInt)
  else
    let blockId := toInt32 m.blockIdCounter
    let m := { m with blockIdCounter := (m.blockIdCounter + 1) % 2 ^ 64 }
    if os.createMemFD = -1 then (m, .error MemFDErrorCode.createFailed.toInt)
    else if os.mapMemFD = 0 then (m, .error MemFDErrorCode.mmapFailed.toInt)
    else if os.sealMemFD = false then (m, .error MemFDErrorCode.sealFailed.toInt)
    else
      let info : SharedMemoryInfo := ⟨blockId, size, os.mapMemFD, 0, 0, os.createMemFD⟩
      ({ m with memories := m.memories.insert os.createMemFD info }, .ok info)

def releaseSharedMemory (m : MemFDService) (fd : ℤ) : MemFDService :=
  { m with memories := m.memories.erase fd }

end MemFDService

/-! ### Allocation and deallocation -/

/-- The service together with its `_memfdService`. -/
structure ShmService (p : Policy) (n : ℕ) where
  service : Service p n
  memfd : MemFDService

namespace ShmService
variable {p : Policy} {n : ℕ}
open Service MemoryService HandleTable

/-- `HandleAllocate`; shared memory is created once the pool has granted a block. -/
def handleAllocate (s : ShmService p n) (pid : ℤ) (d : Fin n) (taskId : ℤ) (size : ℕ)
    (forModel : Bool) (os : Syscalls) : ShmService p n × SharedMemoryInfo :=
  let physAddrOffset := (allocateFor (s.service.mem d) size pid taskId forModel).2
  let (memfd, shm) := if physAddrOffset = NEG1 then (s.memfd, .error 0)
    else s.memfd.createSharedMemory size os
  let (service, info) := s.service.handleAllocate pid d taskId size forModel shm
  (⟨service, memfd⟩, info)

/-- `HandleDeallocate`, with `ReleaseSharedMemoryHandle` for a resolved handle. -/
def handleDeallocate (s : ShmService p n) (pid : ℤ) (d : Fin n) (address : ℕ) :
    ShmService p n × Bool :=
  let memfd := match (s.service.handles.tryResolveSharedMemoryHandle (d : ℕ) pid address).2 with
    | some handle =>
      if 0 ≤ handle.fd then s.memfd.releaseSharedMemory handle.fd else s.memfd
    | none => s.memfd
  let (service, ok) := s.service.handleDeallocate pid d address
  (⟨service, memfd⟩, ok)

/-- The offset that `HandleDeallocate` passes to `DeallocateAddress`. -/
def deallocatedOffset (s : ShmService p n) (pid : ℤ) (d : Fin n) (address : ℕ) : ℕ :=
  match (s.service.handles.tryResolveSharedMemoryHandle (d : ℕ) pid address).2 with
  | some handle => handle.physAddrOffset
  | none => if s.service.memAddr d ≤ address then address - s.service.memAddr d else address

end ShmService

namespace HandleTable

/-- A tracked block is found under its three keys; nothing else changes. -/
theorem tryGet_track (table : HandleTable) (deviceId pid : ℤ) {info : SharedMemoryInfo}
    (hpos : 0 < info.blockId) (deviceId' pid' : ℤ) (key : ℕ) :
    (table.trackSharedMemoryHandle deviceId pid info).tryGetSharedMemoryHandle deviceId' pid' key =
      if (deviceId' = deviceId ∧ pid' = pid) ∧
          key ∈ [toUint64 info.blockId, info.physAddrOffset, info.physAddr]
        then some ⟨info.fd, info.ptr, info.size, info.physAddrOffset⟩
        else table.tryGetSharedMemoryHandle deviceId' pid' key := by
  simp only [tryGetSharedMemoryHandle, trackSharedMemoryHandle, addrMap_setAddrMap, if_pos hpos]
  by_cases hwho : deviceId' = deviceId ∧ pid' = pid
  · obtain ⟨rfl, rfl⟩ := hwho
    simp only [and_self, if_true, true_and, SortedMap.find?_insert, List.mem_cons,
      List.not_mem_nil, or_false]
    split_ifs <;> simp_all
  · simp only [hwho, false_and, if_false]

/-- A resolved block is found no more, under no key; nothing else changes. -/
theorem tryGet_resolve {table : HandleTable} {deviceId pid : ℤ} {address : ℕ}
    {handle : SharedMemHandle}
    (h : table.tryGetSharedMemoryHandle deviceId pid address = some handle)
    (deviceId' pid' : ℤ) (key : ℕ) (handle' : SharedMemHandle) :
    (table.tryResolveSharedMemoryHandle deviceId pid address).1.tryGetSharedMemoryHandle
        deviceId' pid' key = some handle' ↔
      table.tryGetSharedMemoryHandle deviceId' pid' key = some handle' ∧
        ¬ ((deviceId' = deviceId ∧ pid' = pid) ∧
          handle'.physAddrOffset = handle.physAddrOffset) := by
  simp only [tryResolveSharedMemoryHandle, h]
  have hleft : ∀ key, ((table.addrMap deviceId pid).filterMapVal fun h =>
      if h.physAddrOffset = handle.physAddrOffset then none else some h).find? key = some handle' ↔
      (table.addrMap deviceId pid).find? key = some handle' ∧
        handle'.physAddrOffset ≠ handle.physAddrOffset := by
    intro key
    rw [SortedMap.find?_filterMapVal, Option.bind_eq_some_iff]
    constructor
    · rintro ⟨handle'', hfind, hkeep⟩
      split_ifs at hkeep with hne
      cases hkeep
      exact ⟨hfind, hne⟩
    · rintro ⟨hfind, hne⟩
      exact ⟨handle', hfind, if_neg hne⟩
  by_cases hwho : deviceId' = deviceId ∧ pid' = pid
  · obtain ⟨rfl, rfl⟩ := hwho
    split_ifs with hempty
    · -- nothing is left: the map of the process goes
      have hnone := (SortedMap.isEmpty_iff _).mp hempty key
      simp only [tryGetSharedMemoryHandle, addrMap_erasePid, and_self, if_true, true_and]
      rw [← ne_eq, ← hleft, hnone]
      simp
    · simp only [tryGetSharedMemoryHandle, addrMap_setAddrMap, and_self, if_true, true_and]
      exact hleft key
  · split_ifs
    · simp only [tryGetSharedMemoryHandle, addrMap_erasePid, hwho, false_and, if_false,
        not_false_eq_true, and_true]
    · simp only [tryGetSharedMemoryHandle, addrMap_setAddrMap, hwho, false_and, if_false,
        not_false_eq_true, and_true]

theorem tryResolve_snd (table : HandleTable) (deviceId pid : ℤ) (address : ℕ) :
    (table.tryResolveSharedMemoryHandle deviceId pid address).2 =
      table.tryGetSharedMemoryHandle deviceId pid address := by
  rw [tryResolveSharedMemoryHandle]
  cases table.tryGetSharedMemoryHandle deviceId pid address <;> rfl

end HandleTable

/-! ### Live blocks -/

/-- A block handed out to a process. -/
structure Block (n : ℕ) where
  pid : ℤ
  d : Fin n
  info : SharedMemoryInfo
  deriving DecidableEq

namespace Block
variable {n : ℕ}
open HandleTable

/-- The three numbers that stand for a block. -/
def keys (b : Block n) : List ℕ :=
  [toUint64 b.info.blockId, b.info.physAddrOffset, b.info.physAddr]

def handle (b : Block n) : SharedMemHandle :=
  ⟨b.info.fd, b.info.ptr, b.info.size, b.info.physAddrOffset⟩

end Block

/-- The service together with the blocks handed out and not yet freed. -/
structure Lending (p : Policy) (n : ℕ) where
  shm : ShmService p n
  live : List (Block n)

namespace Lending
variable {p : Policy} {n : ℕ} {memSize : Fin n → ℕ}
open Service MemoryService HandleTable Memory

def init (p : Policy) (memAddr memSize : Fin n → ℕ) : Lending p n :=
  ⟨⟨.init p memAddr memSize, ⟨1, .empty⟩⟩, []⟩

/-- A call of any process on any device. -/
inductive Op (n : ℕ) where
  | handleAllocate (pid : ℤ) (d : Fin n) (taskId : ℤ) (size : ℕ) (forModel : Bool) (os : Syscalls)
  | handleDeallocate (pid : ℤ) (d : Fin n) (address : ℕ)

def exec (l : Lending p n) : Op n → Lending p n
  | .handleAllocate pid d taskId size forModel os =>
    let (shm, info) := l.shm.handleAllocate pid d taskId size forModel os
    ⟨shm, ⟨pid, d, info⟩ :: l.live⟩
  | .handleDeallocate pid d address =>
    ⟨(l.shm.handleDeallocate pid d address).1, l.live.filter fun b => ¬ (b.pid = pid ∧ b.d = d ∧
      b.info.physAddrOffset = l.shm.deallocatedOffset pid d address)⟩

/-- The call succeeds. Sizes and addresses are 64-bit numbers, the counter of block ids is still a
    positive `int`, and the system hands out a descriptor that is not in use. -/
def Succeeds (l : Lending p n) : Op n → Prop
  | .handleAllocate pid d taskId size forModel os =>
    (l.shm.handleAllocate pid d taskId size forModel os).2.fd ≠ -1 ∧ size < 2 ^ 64 ∧
      0 < l.shm.memfd.blockIdCounter ∧ l.shm.memfd.blockIdCounter < 2 ^ 31 ∧ -1 ≤ os.createMemFD ∧
      l.shm.memfd.memories.find? os.createMemFD = none
  | .handleDeallocate pid d address =>
    (l.shm.handleDeallocate pid d address).2 = true ∧ address < 2 ^ 64

instance (l : Lending p n) : ∀ op, Decidable (l.Succeeds op)
  | .handleAllocate .. | .handleDeallocate .. => inferInstanceAs (Decidable (_ ∧ _))

/-- The block that an allocation is going to hand out. -/
def nextBlock (l : Lending p n) (pid : ℤ) (d : Fin n) (taskId : ℤ) (size : ℕ) (forModel : Bool)
    (os : Syscalls) : Block n :=
  ⟨pid, d, ⟨MemFDService.toInt32 l.shm.memfd.blockIdCounter, size, os.mapMemFD,
    l.shm.service.memAddr d, (allocateFor (l.shm.service.mem d) size pid taskId forModel).2,
    os.createMemFD⟩⟩

/-- No other live block of the process on the device uses the numbers of the new block: the counter,
    the offset that the pool grants, and the base of the device plus that offset. -/
def KeysFresh (l : Lending p n) : Op n → Prop
  | .handleAllocate pid d taskId size forModel os =>
    ∀ b ∈ l.live, b.pid = pid → b.d = d →
      ∀ key ∈ (l.nextBlock pid d taskId size forModel os).keys, key ∉ b.keys
  | .handleDeallocate .. => True

instance (l : Lending p n) : ∀ op, Decidable (l.KeysFresh op)
  | .handleAllocate .. => inferInstanceAs (Decidable (∀ b ∈ _, _ → _ → _))
  | .handleDeallocate .. => isTrue trivial

/-- One call that succeeds. -/
def Step (ok : Lending p n → Op n → Prop) (l l' : Lending p n) : Prop :=
  ∃ op, l.Succeeds op ∧ ok l op ∧ l' = l.exec op

/-- What `HandleDeallocate` owes for a block: the call reports success, the descriptor that was open
    is closed, the pool block that was reserved is freed, and nothing else changes. -/
structure Releases (s : ShmService p n) (b : Block n) (r : ShmService p n × Bool) : Prop where
  ok : r.2 = true
  wasOpen : (s.memfd.memories.find? b.info.fd).isSome
  closed : ∀ fd, r.1.memfd.memories.find? fd =
    if fd = b.info.fd then none else s.memfd.memories.find? fd
  wasBusy : ∃ size, (s.service.mem b.d).mem.pool.find? b.info.physAddrOffset =
    some ⟨b.info.physAddrOffset, size, .busy⟩
  freed : FreesExactly (s.service.mem b.d) {b.info.physAddrOffset} (r.1.service.mem b.d)
  others : ∀ d, d ≠ b.d → r.1.service.mem d = s.service.mem d

/-- Every key of every live block leads to its own handle, and frees its own block. -/
structure Resolves (l : Lending p n) : Prop where
  lookup : ∀ b ∈ l.live, ∀ key ∈ b.keys,
    l.shm.service.handles.tryGetSharedMemoryHandle (b.d : ℕ) b.pid key = some b.handle
  release : ∀ b ∈ l.live, ∀ key ∈ b.keys,
    Releases l.shm b (l.shm.handleDeallocate b.pid b.d key)

/-! ### What the calls do -/

/-- Whichever of the four functions `HandleAllocate` chooses. -/
theorem allocateFor_spec {mem : MemoryService} {memSize : ℕ} (h : RunOwned memSize mem)
    (hmem : memSize + 4095 < 2 ^ 64) {size : ℕ} (hpos : size ≠ 0) (hsize : size < 2 ^ 64)
    (pid taskId : ℤ) (forModel : Bool) :
    allocateFor mem size pid taskId forModel = (mem, NEG1) ∨ ∃ o : Owner, o.pid = pid ∧
      Granted mem o (allocateFor mem size pid taskId forModel).2
        (allocateFor mem size pid taskId forModel).1 := by
  have hsound : ∀ op : MemoryService.Op, op.size? = some size → mem.Sound op := by
    intro op hop
    refine sizesOk_sound mem op h fun n hn => ?_
    obtain rfl : size = n := Option.some.inj (hop.symm.trans hn)
    exact ⟨Nat.pos_of_ne_zero hpos, hsize, Or.inr hmem⟩
  rw [allocateFor]
  split_ifs
  · exact (backwardAllocateForTask_spec h.owned (hsound _ rfl)).imp id fun hg => ⟨_, rfl, hg⟩
  · exact (allocateForTask_spec h.owned (hsound _ rfl)).imp id fun hg => ⟨_, rfl, hg⟩
  · exact (backwardAllocate_spec h.owned (hsound _ rfl)).imp id fun hg => ⟨_, rfl, hg⟩
  · exact (allocate_spec h.owned (hsound _ rfl)).imp id fun hg => ⟨_, rfl, hg⟩

/-- A successful allocation hands out `nextBlock`, with its descriptor open and its keys tracked. -/
theorem handleAllocate_success {l : Lending p n} {pid : ℤ} {d : Fin n} {taskId : ℤ} {size : ℕ}
    {forModel : Bool} {os : Syscalls}
    (h : (l.shm.handleAllocate pid d taskId size forModel os).2.fd ≠ -1) :
    (allocateFor (l.shm.service.mem d) size pid taskId forModel).2 ≠ NEG1 ∧ size ≠ 0 ∧
      os.createMemFD ≠ -1 ∧ ∃ info : SharedMemoryInfo,
      l.exec (.handleAllocate pid d taskId size forModel os) =
        ⟨⟨{ l.shm.service.setMem d
              (allocateFor (l.shm.service.mem d) size pid taskId forModel).1 with
            handles := l.shm.service.handles.trackSharedMemoryHandle (d : ℕ) pid
              (l.nextBlock pid d taskId size forModel os).info },
          ⟨(l.shm.memfd.blockIdCounter + 1) % 2 ^ 64,
            l.shm.memfd.memories.insert os.createMemFD info⟩⟩,
        l.nextBlock pid d taskId size forModel os :: l.live⟩ := by
  rw [exec]
  by_cases hpool : (allocateFor (l.shm.service.mem d) size pid taskId forModel).2 = NEG1
  · simp [ShmService.handleAllocate, Service.handleAllocate, hpool, invalidInfo] at h
  by_cases hsize : size = 0
  · subst hsize
    simp [ShmService.handleAllocate, Service.handleAllocate, hpool,
      MemFDService.createSharedMemory, invalidInfo] at h
  by_cases hfd : os.createMemFD = -1
  · simp [ShmService.handleAllocate, Service.handleAllocate, hpool, hsize, hfd,
      MemFDService.createSharedMemory, invalidInfo] at h
  by_cases hmap : os.mapMemFD = 0
  · simp [ShmService.handleAllocate, Service.handleAllocate, hpool, hsize, hfd, hmap,
      MemFDService.createSharedMemory, invalidInfo] at h
  by_cases hseal : os.sealMemFD = false
  · simp [ShmService.handleAllocate, Service.handleAllocate, hpool, hsize, hfd, hmap, hseal,
      MemFDService.createSharedMemory, invalidInfo] at h
  refine ⟨hpool, hsize, hfd, ⟨MemFDService.toInt32 l.shm.memfd.blockIdCounter, size, os.mapMemFD, 0,
    0, os.createMemFD⟩, ?_⟩
  simp only [ShmService.handleAllocate, Service.handleAllocate, if_neg hpool,
    MemFDService.createSharedMemory, if_neg hsize, if_neg hfd, if_neg hmap, if_neg hseal]
  rfl

/-- A known key: the descriptor is released and the offset of the handle is freed. -/
theorem handleDeallocate_known {s : ShmService p n} {pid : ℤ} {d : Fin n} {address : ℕ}
    {handle : SharedMemHandle}
    (h : s.service.handles.tryGetSharedMemoryHandle (d : ℕ) pid address = some handle)
    (hfd : 0 ≤ handle.fd) :
    s.handleDeallocate pid d address =
      (⟨{ s.service.setMem d ((s.service.mem d).deallocateAddress handle.physAddrOffset pid).1 with
          handles := (s.service.handles.tryResolveSharedMemoryHandle (d : ℕ) pid address).1 },
        s.memfd.releaseSharedMemory handle.fd⟩,
      ((s.service.mem d).deallocateAddress handle.physAddrOffset pid).2) := by
  have hsnd := (tryResolve_snd s.service.handles (d : ℕ) pid address).trans h
  simp only [ShmService.handleDeallocate, Service.handleDeallocate, hsnd, if_pos hfd]
  cases hr : s.service.handles.tryResolveSharedMemoryHandle (d : ℕ) pid address with
  | mk handles found =>
    rw [hr] at hsnd
    simp only at hsnd
    subst hsnd
    rfl

/-- An unknown key: only the offset it may stand for is passed on. -/
theorem handleDeallocate_unknown {s : ShmService p n} {pid : ℤ} {d : Fin n} {address : ℕ}
    (h : s.service.handles.tryGetSharedMemoryHandle (d : ℕ) pid address = none) :
    (s.handleDeallocate pid d address).2 =
      ((s.service.mem d).deallocateAddress (s.deallocatedOffset pid d address) pid).2 := by
  have hres : s.service.handles.tryResolveSharedMemoryHandle (d : ℕ) pid address =
      (s.service.handles, none) := by
    simp only [tryResolveSharedMemoryHandle, h]
  simp only [ShmService.handleDeallocate, Service.handleDeallocate, ShmService.deallocatedOffset,
    hres]

/-! ### The invariant -/

/-- The pool, the table and the open descriptors say the same as the list of live blocks. -/
structure Tracked (memSize : Fin n → ℕ) (l : Lending p n) : Prop where
  owned : ∀ d, RunOwned (memSize d) (l.shm.service.mem d)
  recorded : ∀ d pid a, (∃ o : Owner, o.pid = pid ∧ (l.shm.service.mem d).Owns o a) ↔
    ∃ b ∈ l.live, (b.pid = pid ∧ b.d = d) ∧ b.info.physAddrOffset = a
  offsets : ∀ b ∈ l.live, ∀ b' ∈ l.live, b.d = b'.d →
    b.info.physAddrOffset = b'.info.physAddrOffset → b = b'
  table : ∀ (d : Fin n) pid key handle,
    l.shm.service.handles.tryGetSharedMemoryHandle (d : ℕ) pid key = some handle ↔
      ∃ b ∈ l.live, (b.pid = pid ∧ b.d = d) ∧ key ∈ b.keys ∧ b.handle = handle
  base : ∀ b ∈ l.live, b.info.physAddrBase = l.shm.service.memAddr b.d
  opened : ∀ b ∈ l.live, 0 ≤ b.info.fd ∧ (l.shm.memfd.memories.find? b.info.fd).isSome
  fds : ∀ b ∈ l.live, ∀ b' ∈ l.live, b.info.fd = b'.info.fd → b = b'

theorem Tracked.lookup {l : Lending p n} (h : Tracked memSize l) {b : Block n} (hb : b ∈ l.live)
    {key : ℕ} (hkey : key ∈ b.keys) :
    l.shm.service.handles.tryGetSharedMemoryHandle (b.d : ℕ) b.pid key = some b.handle :=
  (h.table _ _ _ _).mpr ⟨b, hb, ⟨rfl, rfl⟩, hkey, rfl⟩

/-- The owner of a live block. -/
theorem Tracked.owner {l : Lending p n} (h : Tracked memSize l) {b : Block n} (hb : b ∈ l.live) :
    ∃ o : Owner, o.pid = b.pid ∧ (l.shm.service.mem b.d).Owns o b.info.physAddrOffset :=
  (h.recorded _ _ _).mpr ⟨b, hb, ⟨rfl, rfl⟩, rfl⟩

theorem tracked_init {memAddr : Fin n → ℕ} (hpos : ∀ d, 0 < memSize d)
    (hlt : ∀ d, memSize d + 4095 < 2 ^ 64) : Tracked memSize (init p memAddr memSize) where
  owned d := ⟨owned_ofInfo (hpos d) (by have := hlt d; omega), rfl⟩
  recorded d pid a := by
    constructor
    · rintro ⟨o, -, ho⟩
      cases o <;> exact absurd ho (by simp [init, Service.init, Owns, addrsOf,
        MemoryService.ofInfo])
    · rintro ⟨b, hb, -⟩
      cases hb
  offsets _ hb := by cases hb
  table d pid key handle := by
    constructor
    · intro hget
      cases hget
    · rintro ⟨b, hb, -⟩
      cases hb
  base _ hb := by cases hb
  opened _ hb := by cases hb
  fds _ hb := by cases hb

/-- In a tracked state every key does what it should. -/
theorem Tracked.releases {l : Lending p n} (h : Tracked memSize l) {b : Block n} (hb : b ∈ l.live)
    {key : ℕ} (hkey : key ∈ b.keys) : Releases l.shm b (l.shm.handleDeallocate b.pid b.d key) := by
  obtain ⟨hfd, hopen⟩ := h.opened b hb
  obtain ⟨o, hpid, howns⟩ := h.owner hb
  have howned := (h.owned b.d).owned
  rw [handleDeallocate_known (h.lookup hb hkey) hfd]
  obtain ⟨hok, hfreed⟩ := deallocateAddress_owned howned howns
  rw [hpid] at hok hfreed
  refine ⟨hok, hopen, fun fd => ?_, ?_, ?_, fun d hd => ?_⟩
  · exact SortedMap.find?_erase _ _ _
  · exact (starts_iff howned.pool _).mp ((howned.exact _).mp ⟨o, howns⟩)
  · simp only [setMem, Function.update_self]
    exact hfreed.exactly howned
  · simp only [setMem, Function.update_of_ne hd]

theorem Tracked.resolves {l : Lending p n} (h : Tracked memSize l) : Resolves l :=
  ⟨fun _ hb _ hkey => h.lookup hb hkey, fun _ hb _ hkey => h.releases hb hkey⟩

/-- The new block is found under its three keys. -/
theorem tryGet_allocated {l : Lending p n} {pid : ℤ} {d : Fin n} {taskId : ℤ} {size : ℕ}
    {forModel : Bool} {os : Syscalls} {b : Block n}
    (hb : b = l.nextBlock pid d taskId size forModel os)
    (hop : l.Succeeds (.handleAllocate pid d taskId size forModel os)) (d' : Fin n) (pid' : ℤ)
    (key : ℕ) :
    (l.exec (.handleAllocate pid d taskId size forModel os)
        ).shm.service.handles.tryGetSharedMemoryHandle (d' : ℕ) pid' key =
      if (pid' = pid ∧ d' = d) ∧ key ∈ b.keys then some b.handle
      else l.shm.service.handles.tryGetSharedMemoryHandle (d' : ℕ) pid' key := by
  obtain ⟨hok, _, hpos, hlt, _⟩ := hop
  obtain ⟨_, _, _, info, hexec⟩ := handleAllocate_success hok
  have hid : 0 < (l.nextBlock pid d taskId size forModel os).info.blockId := by
    simp only [nextBlock, MemFDService.toInt32_of_lt hlt]
    exact_mod_cast hpos
  rw [hexec, tryGet_track _ _ _ hid, hb]
  have hdev : ((d' : ℕ) : ℤ) = ((d : ℕ) : ℤ) ↔ d' = d := by
    rw [Nat.cast_inj, Fin.val_inj]
  simp only [hdev, and_comm, Block.keys, Block.handle]
  congr

/-- Fresh keys keep the invariant. -/
theorem tracked_allocate (hlt : ∀ d, memSize d + 4095 < 2 ^ 64) {l : Lending p n}
    (h : Tracked memSize l) {pid : ℤ} {d : Fin n} {taskId : ℤ} {size : ℕ} {forModel : Bool}
    {os : Syscalls} (hop : l.Succeeds (.handleAllocate pid d taskId size forModel os))
    (hfresh : l.KeysFresh (.handleAllocate pid d taskId size forModel os)) :
    Tracked memSize (l.exec (.handleAllocate pid d taskId size forModel os)) := by
  obtain ⟨hok, hsize, _, _, hfd, hclosed⟩ := id hop
  obtain ⟨hneg, hpos, hfd', info, hexec⟩ := handleAllocate_success hok
  have htable := tryGet_allocated rfl hop
  have hgranted := (allocateFor_spec (h.owned d) (hlt d) hpos hsize pid taskId forModel
    ).resolve_left fun hr => hneg (by rw [hr])
  obtain ⟨o, hpid, hgranted⟩ := hgranted
  rw [hexec] at htable ⊢
  generalize hb : l.nextBlock pid d taskId size forModel os = b at htable hexec ⊢
  have hbd : b.d = d := by rw [← hb]; rfl
  have hbpid : b.pid = pid := by rw [← hb]; rfl
  have hboffset : b.info.physAddrOffset =
      (allocateFor (l.shm.service.mem d) size pid taskId forModel).2 := by rw [← hb]; rfl
  have hbfd : b.info.fd = os.createMemFD := by rw [← hb]; rfl
  have hnew : ∀ b' ∈ l.live, b'.d = b.d → b'.info.physAddrOffset ≠ b.info.physAddrOffset := by
    intro b' hb' hd heq
    obtain ⟨o', _, ho'⟩ := h.owner hb'
    rw [hd, hbd, heq, hboffset] at ho'
    exact hgranted.fresh o' ho'
  have hnewfd : ∀ b' ∈ l.live, b'.info.fd ≠ b.info.fd := by
    intro b' hb' heq
    have hopen := (h.opened b' hb').2
    rw [heq, hbfd, hclosed] at hopen
    cases hopen
  refine ⟨fun d' => ?_, fun d' pid' a => ?_, ?_, fun d' pid' key handle => ?_, ?_, ?_, ?_⟩
  · by_cases hd : d' = d
    · subst hd
      simp only [setMem, Function.update_self]
      exact ⟨hgranted.owned, hgranted.size_eq.trans (h.owned d').size_eq⟩
    · simp only [setMem, Function.update_of_ne hd]
      exact h.owned d'
  · simp only [List.mem_cons, exists_eq_or_imp, ← h.recorded]
    by_cases hd : d' = d
    · subst hd
      simp only [setMem, Function.update_self, hgranted.recorded, hbd, hbpid, hboffset, and_true]
      constructor
      · rintro ⟨o', rfl, ho' | ⟨rfl, rfl⟩⟩
        · exact Or.inr ⟨o', rfl, ho'⟩
        · exact Or.inl ⟨hpid.symm, rfl⟩
      · rintro (⟨rfl, rfl⟩ | ⟨o', rfl, ho'⟩)
        · exact ⟨o, hpid, Or.inr ⟨rfl, rfl⟩⟩
        · exact ⟨o', rfl, Or.inl ho'⟩
    · have hne : ¬ b.d = d' := by rw [hbd]; exact fun heq => hd heq.symm
      simp only [setMem, Function.update_of_ne hd, hne, and_false, false_and, false_or]
  · simp only [List.mem_cons, forall_eq_or_imp]
    refine ⟨⟨fun _ _ => trivial, fun b' hb' hd heq => ?_⟩, fun b' hb' => ⟨fun hd heq => ?_, ?_⟩⟩
    · exact absurd heq.symm (hnew b' hb' hd.symm)
    · exact absurd heq (hnew b' hb' hd)
    · exact h.offsets b' hb'
  · rw [htable]
    simp only [List.mem_cons, exists_eq_or_imp, ← h.table]
    by_cases hkey : (pid' = pid ∧ d' = d) ∧ key ∈ b.keys
    · obtain ⟨⟨rfl, rfl⟩, hkey⟩ := hkey
      simp only [hkey, and_self, if_true, hbpid, hbd, true_and, Option.some.injEq]
      refine ⟨Or.inl, fun hor => hor.resolve_right fun hold => ?_⟩
      obtain ⟨b', hb', ⟨hpid', hd'⟩, hkey', _⟩ := (h.table _ _ _ _).mp hold
      have hdisj := hfresh b' hb' hpid' hd'
      rw [hb] at hdisj
      exact hdisj key hkey hkey'
    · rw [if_neg hkey]
      refine ⟨Or.inr, fun hor => hor.resolve_left ?_⟩
      rintro ⟨⟨rfl, rfl⟩, hk, _⟩
      exact hkey ⟨⟨hbpid, hbd⟩, hk⟩
  · simp only [List.mem_cons, forall_eq_or_imp]
    exact ⟨by rw [← hb]; rfl, h.base⟩
  · simp only [List.mem_cons, forall_eq_or_imp]
    refine ⟨⟨by omega, by rw [hbfd, SortedMap.find?_insert, if_pos rfl]; rfl⟩, fun b' hb' => ?_⟩
    obtain ⟨hnonneg, hopen⟩ := h.opened b' hb'
    refine ⟨hnonneg, ?_⟩
    rw [SortedMap.find?_insert, if_neg (hbfd ▸ hnewfd b' hb')]
    exact hopen
  · simp only [List.mem_cons, forall_eq_or_imp]
    refine ⟨⟨fun _ => trivial, fun b' hb' heq => ?_⟩, fun b' hb' => ⟨fun heq => ?_, ?_⟩⟩
    · exact absurd heq.symm (hnewfd b' hb')
    · exact absurd heq (hnewfd b' hb')
    · exact h.fds b' hb'

/-- A key that is already in use is taken away from the older block. -/
theorem Tracked.collision (hlt : ∀ d, memSize d + 4095 < 2 ^ 64) {l : Lending p n}
    (h : Tracked memSize l) {pid : ℤ} {d : Fin n} {taskId : ℤ} {size : ℕ} {forModel : Bool}
    {os : Syscalls} (hop : l.Succeeds (.handleAllocate pid d taskId size forModel os))
    (hres : Resolves (l.exec (.handleAllocate pid d taskId size forModel os))) :
    l.KeysFresh (.handleAllocate pid d taskId size forModel os) := by
  intro b hb hbpid hbd key hnew hold
  obtain ⟨hok, hsize, _⟩ := id hop
  obtain ⟨hneg, hpos, _, _, hexec⟩ := handleAllocate_success hok
  have hlookup := hres.lookup b (by rw [hexec]; exact List.mem_cons_of_mem _ hb) key hold
  rw [tryGet_allocated rfl hop, if_pos ⟨⟨hbpid, hbd⟩, hnew⟩, Option.some.injEq] at hlookup
  -- the two blocks would have the same offset, but the new one is at a fresh address
  have hoffset : (allocateFor (l.shm.service.mem d) size pid taskId forModel).2 =
      b.info.physAddrOffset := congrArg SharedMemHandle.physAddrOffset hlookup
  obtain ⟨o, _, howns⟩ := h.owner hb
  rw [hbd, ← hoffset] at howns
  obtain ⟨_, _, hgranted⟩ := (allocateFor_spec (h.owned d) (hlt d) hpos hsize pid taskId forModel
    ).resolve_left fun hr => hneg (by rw [hr])
  exact hgranted.fresh o howns

/-- A deallocation that succeeds was given a key of a live block. -/
theorem Tracked.known {l : Lending p n} (h : Tracked memSize l) {pid : ℤ} {d : Fin n}
    {address : ℕ} (hop : l.Succeeds (.handleDeallocate pid d address)) :
    ∃ b ∈ l.live, (b.pid = pid ∧ b.d = d) ∧ address ∈ b.keys := by
  obtain ⟨hok, haddr⟩ := hop
  cases hget : l.shm.service.handles.tryGetSharedMemoryHandle (d : ℕ) pid address with
  | some handle =>
    obtain ⟨b, hb, hwho, hkey, _⟩ := (h.table _ _ _ _).mp hget
    exact ⟨b, hb, hwho, hkey⟩
  | none =>
    rw [handleDeallocate_unknown hget] at hok
    have hrecorded : ∃ o : Owner, o.pid = pid ∧ (l.shm.service.mem d).Owns o
        (l.shm.deallocatedOffset pid d address) := by
      by_contra hno
      rw [deallocateAddress_foreign fun o hpid ho => hno ⟨o, hpid, ho⟩] at hok
      cases hok
    obtain ⟨b, hb, ⟨rfl, rfl⟩, hoffset⟩ := (h.recorded _ _ _).mp hrecorded
    refine ⟨b, hb, ⟨rfl, rfl⟩, ?_⟩
    simp only [ShmService.deallocatedOffset, tryResolve_snd, hget] at hoffset
    simp only [Block.keys, SharedMemoryInfo.physAddr, h.base b hb, List.mem_cons,
      List.not_mem_nil, or_false]
    split_ifs at hoffset with hbase
    · refine Or.inr (Or.inr ?_)
      rw [hoffset, Nat.add_sub_cancel' hbase, Nat.mod_eq_of_lt haddr]
    · exact Or.inr (Or.inl hoffset.symm)

/-- A deallocation with a key of a live block takes exactly that block off the list. -/
theorem Tracked.mem_live_deallocate {l : Lending p n} (h : Tracked memSize l) {b : Block n}
    (hb : b ∈ l.live) {address : ℕ} (hkey : address ∈ b.keys) (b' : Block n) :
    b' ∈ (l.exec (.handleDeallocate b.pid b.d address)).live ↔ b' ∈ l.live ∧ b' ≠ b := by
  have hdealloc : l.shm.deallocatedOffset b.pid b.d address = b.info.physAddrOffset := by
    rw [ShmService.deallocatedOffset, tryResolve_snd, h.lookup hb hkey]
    rfl
  rw [exec, List.mem_filter, hdealloc, decide_eq_true_eq]
  refine and_congr_right fun hb' => ⟨fun hne heq => ?_, fun hne hsame => ?_⟩
  · subst heq
    exact hne ⟨rfl, rfl, rfl⟩
  · exact hne (h.offsets b' hb' b hb hsame.2.1 hsame.2.2)

theorem tracked_deallocate {l : Lending p n} (h : Tracked memSize l) {pid : ℤ} {d : Fin n}
    {address : ℕ} (hop : l.Succeeds (.handleDeallocate pid d address)) :
    Tracked memSize (l.exec (.handleDeallocate pid d address)) := by
  obtain ⟨b, hb, ⟨rfl, rfl⟩, hkey⟩ := h.known hop
  have hget := h.lookup hb hkey
  obtain ⟨hfd, _⟩ := h.opened b hb
  obtain ⟨o, hpid, howns⟩ := h.owner hb
  obtain ⟨_, hfreed⟩ := deallocateAddress_owned (h.owned b.d).owned howns
  rw [hpid] at hfreed
  have hkept := h.mem_live_deallocate hb hkey
  have hshm : (l.exec (.handleDeallocate b.pid b.d address)).shm = _ :=
    congrArg Prod.fst (handleDeallocate_known hget hfd)
  refine ⟨fun d' => ?_, fun d' pid' a => ?_, fun b₁ h₁ b₂ h₂ => ?_, fun d' pid' key handle => ?_,
    fun b' hb' => ?_, fun b' hb' => ?_, fun b₁ h₁ b₂ h₂ => ?_⟩
  · rw [hshm]
    by_cases hd : d' = b.d
    · subst hd
      simp only [setMem, Function.update_self]
      exact ⟨hfreed.owned, hfreed.size_eq.trans (h.owned b.d).size_eq⟩
    · simp only [setMem, Function.update_of_ne hd]
      exact h.owned d'
  · simp only [hkept]
    rw [hshm]
    by_cases hd : d' = b.d
    · subst hd
      simp only [setMem, Function.update_self]
      constructor
      · rintro ⟨o', hpid', ho'⟩
        obtain ⟨hold, hne⟩ := (hfreed.recorded _ _).mp ho'
        obtain ⟨b', hb', hwho, rfl⟩ := (h.recorded _ _ _).mp ⟨o', hpid', hold⟩
        exact ⟨b', ⟨hb', fun heq => hne (heq ▸ rfl)⟩, hwho, rfl⟩
      · rintro ⟨b', ⟨hb', hne⟩, ⟨rfl, hd'⟩, rfl⟩
        obtain ⟨o', hpid', ho'⟩ := h.owner hb'
        rw [hd'] at ho'
        refine ⟨o', hpid', (hfreed.recorded _ _).mpr ⟨ho', fun heq => hne ?_⟩⟩
        exact h.offsets b' hb' b hb hd' heq
    · simp only [setMem, Function.update_of_ne hd, h.recorded]
      constructor
      · rintro ⟨b', hb', hwho, rfl⟩
        exact ⟨b', ⟨hb', fun heq => hd (by rw [← hwho.2, heq])⟩, hwho, rfl⟩
      · rintro ⟨b', ⟨hb', _⟩, hwho, rfl⟩
        exact ⟨b', hb', hwho, rfl⟩
  · exact h.offsets b₁ ((hkept _).mp h₁).1 b₂ ((hkept _).mp h₂).1
  · simp only [hkept]
    rw [hshm, tryGet_resolve hget, h.table]
    have hdev : ((d' : ℕ) : ℤ) = ((b.d : ℕ) : ℤ) ↔ d' = b.d := by
      rw [Nat.cast_inj, Fin.val_inj]
    rw [hdev]
    constructor
    · rintro ⟨⟨b', hb', ⟨rfl, rfl⟩, hkey', rfl⟩, hne⟩
      refine ⟨b', ⟨hb', fun heq => hne ?_⟩, ⟨rfl, rfl⟩, hkey', rfl⟩
      subst heq
      exact ⟨⟨rfl, rfl⟩, rfl⟩
    · rintro ⟨b', ⟨hb', hne⟩, ⟨rfl, rfl⟩, hkey', rfl⟩
      refine ⟨⟨b', hb', ⟨rfl, rfl⟩, hkey', rfl⟩, fun hsame => hne ?_⟩
      exact h.offsets b' hb' b hb hsame.1.1 hsame.2
  · rw [hshm]
    exact h.base b' ((hkept _).mp hb').1
  · obtain ⟨hmem, hne⟩ := (hkept _).mp hb'
    obtain ⟨hnonneg, hopen⟩ := h.opened b' hmem
    refine ⟨hnonneg, ?_⟩
    rw [hshm, MemFDService.releaseSharedMemory, SortedMap.find?_erase,
      if_neg fun heq : b'.info.fd = b.handle.fd => hne (h.fds b' hmem b hb heq)]
    exact hopen
  · exact h.fds b₁ ((hkept _).mp h₁).1 b₂ ((hkept _).mp h₂).1

theorem tracked_exec (hlt : ∀ d, memSize d + 4095 < 2 ^ 64) {l : Lending p n}
    (h : Tracked memSize l) {op : Op n} (hop : l.Succeeds op) (hfresh : l.KeysFresh op) :
    Tracked memSize (l.exec op) := by
  cases op with
  | handleAllocate pid d taskId size forModel os => exact tracked_allocate hlt h hop hfresh
  | handleDeallocate pid d address => exact tracked_deallocate h hop

/-- After every sequence of successful calls in which each new block brings three numbers that no
    other live block of its process and device uses, every key of every live block leads to its own
    handle and frees its own block. The first allocation that brings a number in use breaks this. -/
theorem handle_aliases {memAddr : Fin n → ℕ} (hpos : ∀ d, 0 < memSize d)
    (hlt : ∀ d, memSize d + 4095 < 2 ^ 64) {l : Lending p n}
    (hrun : Relation.ReflTransGen (Step KeysFresh) (init p memAddr memSize) l) :
    Resolves l ∧ ∀ op, l.Succeeds op → (Resolves (l.exec op) ↔ l.KeysFresh op) := by
  have htracked : Tracked memSize l := by
    refine Run.invariant ?_ hrun (tracked_init hpos hlt)
    rintro s t ⟨op, hop, hfresh, rfl⟩ h
    exact tracked_exec hlt h hop hfresh
  refine ⟨htracked.resolves, fun op hop => ⟨fun hres => ?_, fun hfresh => ?_⟩⟩
  · cases op with
    | handleAllocate pid d taskId size forModel os => exact htracked.collision hlt hop hres
    | handleDeallocate pid d address => trivial
  · exact (tracked_exec hlt htracked hop hfresh).resolves

/-- A page for process 1 on the only device; the descriptor is `fd`. -/
def page (fd : ℤ) : Op 1 := .handleAllocate 1 0 (-1) 4096 false ⟨fd, 2 ^ 30, true⟩

/-- A device whose memory starts at `2^32`: two pages, and the first is freed by its block id. -/
theorem handle_aliases_two_pages : ∃ l : Lending .fifo 1,
    Relation.ReflTransGen (Step KeysFresh) (init .fifo (fun _ => 2 ^ 32) fun _ => 16384) l ∧
      l.live.map Block.keys = [[2, 4096, 2 ^ 32 + 4096]] ∧ Resolves l := by
  have hrun : Relation.ReflTransGen (Step KeysFresh)
      (init .fifo (fun _ => 2 ^ 32) fun _ => 16384 : Lending .fifo 1) _ :=
    (((Relation.ReflTransGen.refl
      ).tail ⟨page 3, by decide +kernel, by decide +kernel, rfl⟩
      ).tail ⟨page 4, by decide +kernel, by decide +kernel, rfl⟩
      ).tail ⟨.handleDeallocate 1 0 1, by decide +kernel, by decide +kernel, rfl⟩
  exact ⟨_, hrun, by decide +kernel, (handle_aliases (fun _ => by decide) (fun _ => by decide) hrun).1⟩

/-- A device whose memory starts at 4096: the absolute address of the first page is the offset of
    the second, and leads to the second. -/
theorem handle_aliases_base_is_offset : ∃ l : Lending .fifo 1,
    Relation.ReflTransGen (Step fun _ _ => True) (init .fifo (fun _ => 4096) fun _ => 16384) l ∧
      l.live.map Block.keys = [[2, 4096, 8192], [1, 0, 4096]] ∧
      l.shm.service.handles.tryGetSharedMemoryHandle 0 1 4096 = some ⟨4, 2 ^ 30, 4096, 4096⟩ ∧
      ¬ Resolves l := by
  have hrun : Relation.ReflTransGen (Step fun _ _ => True)
      (init .fifo (fun _ => 4096) fun _ => 16384 : Lending .fifo 1) _ :=
    ((Relation.ReflTransGen.refl
      ).tail ⟨page 3, by decide +kernel, trivial, rfl⟩
      ).tail ⟨page 4, by decide +kernel, trivial, rfl⟩
  refine ⟨_, hrun, by decide +kernel, by decide +kernel, fun hres => ?_⟩
  have hlookup := hres.lookup ⟨1, 0, ⟨1, 4096, 2 ^ 30, 4096, 0, 3⟩⟩ (by decide +kernel) 4096
    (by decide +kernel)
  revert hlookup
  decide +kernel

end Lending
end DxRt
