import DxRt.Service.Aliases

/-! lib/dxrt_service/dxrt_service_v2.cpp, lib/dynamic_ipc/shm/memfd_service.cpp: a process leaves.

    `ReleaseAllSharedMemoryHandlesForProcess` takes the address map of the process out of the table
    under `_sharedMemoryLock`, and then releases what it found by descriptor number, one entry after
    another and without the lock. A block is entered under up to three keys, so its descriptor is
    released up to three times; the first release closes it, and the system may hand the number out
    again before the second. As long as no new block gets a number that such a call is still going
    to release, every call touches the blocks of its own process only, and every block goes once. -/

namespace DxRt

/-- A block made by `CreateSharedMemory`, and for whom; `serial` counts the blocks made so far. -/
structure OwnedBlock where
  serial : ℕ
  deviceId : ℤ
  pid : ℤ
  info : SharedMemoryInfo
  deriving DecidableEq

namespace OwnedBlock
open HandleTable

def handle (b : OwnedBlock) : SharedMemHandle :=
  ⟨b.info.fd, b.info.ptr, b.info.size, b.info.physAddrOffset⟩

/-- The keys of `TrackSharedMemoryHandle`; a block id that is not positive is none. -/
def keys (b : OwnedBlock) : List ℕ :=
  b.info.physAddr :: b.info.physAddrOffset ::
    if 0 < b.info.blockId then [toUint64 b.info.blockId] else []

/-- The entry of `memories_`, which never learns the device address. -/
def registered (b : OwnedBlock) : SharedMemoryInfo :=
  { b.info with physAddrBase := 0, physAddrOffset := 0 }

end OwnedBlock

/-- A call between two of its locks. -/
inductive ShmCall where
  /-- `HandleAllocate` before `TrackSharedMemoryHandle`. -/
  | track (b : OwnedBlock)
  /-- `HandleDeallocate` or `ReleaseAllSharedMemoryHandlesForProcess`, with the handles it has taken
      out of the table and not yet released. -/
  | release (deviceId pid : ℤ) (handles : List SharedMemHandle)
  deriving DecidableEq

namespace ShmCall

/-- The block that the call has still to enter into the table. -/
def tracked? : ShmCall → Option OwnedBlock
  | .track b => some b
  | .release .. => none

def tracking (calls : List ShmCall) : List OwnedBlock := calls.filterMap tracked?

/-- The handles that some call is still going to release, and for whom. -/
def pending (calls : List ShmCall) : List (ℤ × ℤ × SharedMemHandle) :=
  calls.flatMap fun
    | .track _ => []
    | .release deviceId pid handles => handles.map (deviceId, pid, ·)

@[simp] theorem tracking_track (b : OwnedBlock) (calls : List ShmCall) :
    tracking (.track b :: calls) = b :: tracking calls := rfl

@[simp] theorem tracking_release (deviceId pid : ℤ) (handles : List SharedMemHandle)
    (calls : List ShmCall) : tracking (.release deviceId pid handles :: calls) = tracking calls :=
  rfl

@[simp] theorem pending_track (b : OwnedBlock) (calls : List ShmCall) :
    pending (.track b :: calls) = pending calls := rfl

@[simp] theorem pending_release (deviceId pid : ℤ) (handles : List SharedMemHandle)
    (calls : List ShmCall) : pending (.release deviceId pid handles :: calls) =
      handles.map (deviceId, pid, ·) ++ pending calls := rfl

end ShmCall

/-- A block that was unmapped, closed and removed, and the process whose call did it. -/
structure Release where
  block : OwnedBlock
  deviceId : ℤ
  pid : ℤ
  deriving DecidableEq

/-- The handle table and `_memfdService`, the calls in flight, and the history of the blocks. -/
structure ShmState where
  handles : HandleTable
  memfd : MemFDService
  calls : List ShmCall
  live : List OwnedBlock
  released : List Release
  created : ℕ

namespace ShmState
open HandleTable ShmCall

def init : ShmState := ⟨.empty, ⟨1, .empty⟩, [], [], [], 0⟩

/-- The handles of a process, in the order of their keys. -/
def handlesOf (s : ShmState) (deviceId pid : ℤ) : List SharedMemHandle :=
  (s.handles.addrMap deviceId pid).entries.map Prod.snd

/-- `HandleAllocate` up to `TrackSharedMemoryHandle`; the pool has granted `physAddrOffset` on a
    device whose memory starts at `memAddr`. -/
def handleAllocate (s : ShmState) (deviceId pid : ℤ) (size memAddr physAddrOffset : ℕ)
    (os : Syscalls) : ShmState :=
  match s.memfd.createSharedMemory size os with
  | (memfd, .error _) => { s with memfd }
  | (memfd, .ok shmInfo) =>
    let b : OwnedBlock := ⟨s.created, deviceId, pid,
      { shmInfo with physAddrBase := memAddr, physAddrOffset := physAddrOffset }⟩
    { s with
      memfd
      calls := .track b :: s.calls
      live := b :: s.live
      created := s.created + 1 }

/-- `HandleDeallocate` up to `ReleaseSharedMemoryHandle`. -/
def handleDeallocate (s : ShmState) (deviceId pid : ℤ) (address : ℕ) : ShmState :=
  match s.handles.tryResolveSharedMemoryHandle deviceId pid address with
  | (_, none) => s
  | (handles, some handle) =>
    { s with handles, calls := .release deviceId pid [handle] :: s.calls }

/-- `ReleaseAllSharedMemoryHandlesForProcess` up to its loop. -/
def releaseAllSharedMemoryHandlesForProcess (s : ShmState) (deviceId pid : ℤ) : ShmState :=
  { s with
    handles := s.handles.releaseAllSharedMemoryHandlesForProcess deviceId pid
    calls := .release deviceId pid (s.handlesOf deviceId pid) :: s.calls }

/-- `ReleaseSharedMemoryHandle`, and with it what is registered under the descriptor. -/
def releaseSharedMemoryHandle (s : ShmState) (deviceId pid : ℤ) (handle : SharedMemHandle) :
    ShmState :=
  if 0 ≤ handle.fd then
    { s with
      memfd := s.memfd.releaseSharedMemory handle.fd
      live := s.live.filter fun b => b.info.fd ≠ handle.fd
      released := (s.live.filter fun b => b.info.fd = handle.fd).map (⟨·, deviceId, pid⟩) ++
        s.released }
  else s

/-- A call goes on to its next lock. -/
def resume (s : ShmState) : ShmCall → ShmState
  | .track b => { s with handles := s.handles.trackSharedMemoryHandle b.deviceId b.pid b.info }
  | .release _ _ [] => s
  | .release deviceId pid (handle :: handles) =>
    let s := s.releaseSharedMemoryHandle deviceId pid handle
    { s with calls := .release deviceId pid handles :: s.calls }

/-- What happens next: a client's request, a process that leaves, or the `i`-th call in flight. -/
inductive Event where
  | handleAllocate (deviceId pid : ℤ) (size memAddr physAddrOffset : ℕ) (os : Syscalls)
  | handleDeallocate (deviceId pid : ℤ) (address : ℕ)
  | releaseAll (deviceId pid : ℤ)
  | resume (i : ℕ)

def exec (s : ShmState) : Event → ShmState
  | .handleAllocate deviceId pid size memAddr physAddrOffset os =>
    s.handleAllocate deviceId pid size memAddr physAddrOffset os
  | .handleDeallocate deviceId pid address => s.handleDeallocate deviceId pid address
  | .releaseAll deviceId pid => s.releaseAllSharedMemoryHandlesForProcess deviceId pid
  | .resume i =>
    match s.calls[i]? with
    | none => s
    | some call => { s with calls := s.calls.eraseIdx i }.resume call

/-- Device and process of the call that an event belongs to. -/
def caller (s : ShmState) : Event → Option (ℤ × ℤ)
  | .handleAllocate deviceId pid .. | .handleDeallocate deviceId pid _ | .releaseAll deviceId pid =>
    some (deviceId, pid)
  | .resume i => s.calls[i]?.map fun
    | .track b => (b.deviceId, b.pid)
    | .release deviceId pid _ => (deviceId, pid)

/-- The system never hands out a descriptor that is open. -/
def Possible (s : ShmState) : Event → Prop
  | .handleAllocate _ _ _ _ _ os =>
    -1 ≤ os.createMemFD ∧ s.memfd.memories.find? os.createMemFD = none
  | _ => True

instance (s : ShmState) : DecidablePred s.Possible
  | .handleAllocate .. => inferInstanceAs (Decidable (_ ∧ _))
  | .handleDeallocate .. | .releaseAll .. | .resume _ => isTrue trivial

/-- No new block gets a descriptor that a call is still going to release; a new block leaves every
    older block of the process one of its keys; and no two blocks of a process have one offset when
    one of them is resolved. -/
def Clear (s : ShmState) : Event → Prop
  | .handleAllocate _ _ _ _ _ os => ∀ e ∈ pending s.calls, e.2.2.fd ≠ os.createMemFD
  | .handleDeallocate deviceId pid address =>
    ∀ handle ∈ s.handles.tryGetSharedMemoryHandle deviceId pid address,
      ∀ handle' ∈ s.handlesOf deviceId pid,
        handle'.physAddrOffset = handle.physAddrOffset → handle'.fd = handle.fd
  | .releaseAll .. => True
  | .resume i => ∀ b ∈ s.calls[i]?.bind tracked?, ∀ handle ∈ s.handlesOf b.deviceId b.pid,
      ∃ e ∈ (s.handles.addrMap b.deviceId b.pid).entries, e.2 = handle ∧ e.1 ∉ b.keys

instance (s : ShmState) : DecidablePred s.Clear
  | .handleAllocate .. => inferInstanceAs (Decidable (∀ e ∈ _, _))
  | .handleDeallocate .. => inferInstanceAs (Decidable (∀ handle ∈ _, _))
  | .releaseAll .. => isTrue trivial
  | .resume _ => inferInstanceAs (Decidable (∀ b ∈ _, _))

/-- One event that can happen. -/
def Step (ok : ShmState → Event → Prop) (s s' : ShmState) : Prop :=
  ∃ event, s.Possible event ∧ ok s event ∧ s' = s.exec event

/-- A release is done by a call of the process the block was made for; no block is released twice,
    or released and still live; every live block is registered; and it is on its way into the table,
    in the table of its process, or about to be released by a call of its process. -/
structure OwnReleases (s : ShmState) : Prop where
  own : ∀ r ∈ s.released, r.deviceId = r.block.deviceId ∧ r.pid = r.block.pid
  once : (s.released.map Release.block ++ s.live).Nodup
  registered : ∀ b ∈ s.live, s.memfd.memories.find? b.info.fd = some b.registered
  placed : ∀ b ∈ s.live, b ∈ tracking s.calls ∨
    (∃ key, s.handles.tryGetSharedMemoryHandle b.deviceId b.pid key = some b.handle) ∨
    (b.deviceId, b.pid, b.handle) ∈ pending s.calls

/-! ### What the operations do -/

/-- A process that leaves has no entry any more; nothing else changes. -/
theorem addrMap_releaseAll (table : HandleTable) (deviceId pid deviceId' pid' : ℤ) :
    (table.releaseAllSharedMemoryHandlesForProcess deviceId pid).addrMap deviceId' pid' =
      if deviceId' = deviceId ∧ pid' = pid then .empty else table.addrMap deviceId' pid' := by
  rw [HandleTable.releaseAllSharedMemoryHandlesForProcess]
  split_ifs with hfound hwho hwho
  · rw [addrMap_erasePid, if_pos hwho]
  · rw [addrMap_erasePid, if_neg hwho]
  · -- the process had no entry
    obtain ⟨rfl, rfl⟩ := hwho
    rw [SortedMap.contains, Bool.not_eq_true, Option.isSome_eq_false_iff,
      Option.isNone_iff_eq_none] at hfound
    rw [addrMap, hfound, Option.getD_none]
  · rfl

/-- A resolved block is found no more; the maps of other processes stay. -/
theorem addrMap_tryResolve (table : HandleTable) {deviceId pid deviceId' pid' : ℤ}
    (address : ℕ) (hwho : ¬ (deviceId' = deviceId ∧ pid' = pid)) :
    (table.tryResolveSharedMemoryHandle deviceId pid address).1.addrMap deviceId' pid' =
      table.addrMap deviceId' pid' := by
  rw [tryResolveSharedMemoryHandle]
  cases table.tryGetSharedMemoryHandle deviceId pid address with
  | none => rfl
  | some handle =>
    simp only
    split_ifs
    · rw [addrMap_erasePid, if_neg hwho]
    · rw [addrMap_setAddrMap, if_neg hwho]

/-- A tracked block is found under its keys; nothing else changes. -/
theorem tryGet_track_block (table : HandleTable) (b : OwnedBlock) (deviceId pid : ℤ) (key : ℕ) :
    (table.trackSharedMemoryHandle b.deviceId b.pid b.info).tryGetSharedMemoryHandle deviceId pid
        key =
      if (deviceId = b.deviceId ∧ pid = b.pid) ∧ key ∈ b.keys then some b.handle
      else table.tryGetSharedMemoryHandle deviceId pid key := by
  simp only [tryGetSharedMemoryHandle, trackSharedMemoryHandle, addrMap_setAddrMap]
  by_cases hwho : deviceId = b.deviceId ∧ pid = b.pid
  · obtain ⟨rfl, rfl⟩ := hwho
    simp only [and_self, if_true, true_and, OwnedBlock.keys, OwnedBlock.handle]
    split_ifs with hid <;> simp only [SortedMap.find?_insert] <;> split_ifs <;> simp_all
  · simp only [hwho, false_and, if_false]

theorem mem_handlesOf {s : ShmState} {deviceId pid : ℤ} {handle : SharedMemHandle} :
    handle ∈ s.handlesOf deviceId pid ↔
      ∃ key, s.handles.tryGetSharedMemoryHandle deviceId pid key = some handle := by
  simp only [handlesOf, List.mem_map, Prod.exists, exists_eq_right, tryGetSharedMemoryHandle,
    SortedMap.find?_eq_some]

/-- `CreateSharedMemory` throws, or registers a new block under a valid descriptor. -/
theorem handleAllocate_cases (s : ShmState) (deviceId pid : ℤ) (size memAddr physAddrOffset : ℕ)
    (os : Syscalls) :
    (∃ memfd : MemFDService, memfd.memories = s.memfd.memories ∧
      s.handleAllocate deviceId pid size memAddr physAddrOffset os = { s with memfd }) ∨
    os.createMemFD ≠ -1 ∧ ∃ (b : OwnedBlock) (memfd : MemFDService),
      b.serial = s.created ∧ b.info.fd = os.createMemFD ∧
      memfd.memories = s.memfd.memories.insert os.createMemFD b.registered ∧
      s.handleAllocate deviceId pid size memAddr physAddrOffset os =
        { s with memfd, calls := .track b :: s.calls, live := b :: s.live,
                 created := s.created + 1 } := by
  rw [handleAllocate, MemFDService.createSharedMemory]
  by_cases hsize : size = 0
  · exact Or.inl ⟨s.memfd, rfl, by rw [if_pos hsize]⟩
  rw [if_neg hsize]
  generalize (s.memfd.blockIdCounter + 1) % 2 ^ 64 = counter
  by_cases hfd : os.createMemFD = -1
  · exact Or.inl ⟨⟨counter, s.memfd.memories⟩, rfl, by simp only [if_pos hfd]⟩
  by_cases hmap : os.mapMemFD = 0
  · exact Or.inl ⟨⟨counter, s.memfd.memories⟩, rfl, by
      simp only [if_neg hfd, if_pos hmap]⟩
  by_cases hseal : os.sealMemFD = false
  · exact Or.inl ⟨⟨counter, s.memfd.memories⟩, rfl, by
      simp only [if_neg hfd, if_neg hmap, if_pos hseal]⟩
  generalize MemFDService.toInt32 s.memfd.blockIdCounter = blockId
  let b : OwnedBlock := ⟨s.created, deviceId, pid,
    ⟨blockId, size, os.mapMemFD, memAddr, physAddrOffset, os.createMemFD⟩⟩
  refine Or.inr ⟨hfd, b, ⟨counter, s.memfd.memories.insert os.createMemFD b.registered⟩,
    rfl, rfl, rfl, ?_⟩
  simp only [if_neg hfd, if_neg hmap, if_neg hseal]
  rfl

/-! ### The invariant -/

/-- The table, the registered descriptors and the calls in flight say the same as the live blocks. -/
structure Accounted (s : ShmState) : Prop extends OwnReleases s where
  fresh : ∀ b ∈ s.released.map Release.block ++ s.live, b.serial < s.created
  nonneg : ∀ b ∈ s.live, 0 ≤ b.info.fd
  fds : ∀ b ∈ s.live, ∀ b' ∈ s.live, b.info.fd = b'.info.fd → b = b'
  opened : ∀ fd, (s.memfd.memories.find? fd).isSome → ∃ b ∈ s.live, b.info.fd = fd
  trackingLive : ∀ b ∈ tracking s.calls, b ∈ s.live
  trackingOnce : (tracking s.calls).Nodup
  table : ∀ deviceId pid key handle,
    s.handles.tryGetSharedMemoryHandle deviceId pid key = some handle →
    ∃ b ∈ s.live, (b.deviceId = deviceId ∧ b.pid = pid) ∧ b.handle = handle ∧
      b ∉ tracking s.calls ∧ ∀ e ∈ pending s.calls, e.2.2.fd ≠ b.info.fd
  pending : ∀ e ∈ pending s.calls, ∀ b ∈ s.live, b.info.fd = e.2.2.fd →
    e = (b.deviceId, b.pid, b.handle) ∧ b ∉ tracking s.calls

theorem accounted_init : Accounted init where
  own _ hr := by cases hr
  once := List.nodup_nil
  registered _ hb := by cases hb
  placed _ hb := by cases hb
  fresh _ hb := by cases hb
  nonneg _ hb := by cases hb
  fds _ hb := by cases hb
  opened _ hfd := by cases hfd
  trackingLive _ hb := by cases hb
  trackingOnce := List.nodup_nil
  table _ _ _ _ hget := absurd hget nofun
  pending _ he := by cases he

/-- The order of the calls does not matter. -/
theorem Accounted.perm {s : ShmState} (h : Accounted s) {calls : List ShmCall}
    (hperm : s.calls.Perm calls) : Accounted { s with calls } := by
  have htracking : (tracking s.calls).Perm (tracking calls) := hperm.filterMap _
  have hpending : (ShmCall.pending s.calls).Perm (ShmCall.pending calls) := hperm.flatMap_right _
  exact {
    own := h.own
    once := h.once
    registered := h.registered
    placed := fun b hb => by
      rw [← htracking.mem_iff, ← hpending.mem_iff]
      exact h.placed b hb
    fresh := h.fresh
    nonneg := h.nonneg
    fds := h.fds
    opened := h.opened
    trackingLive := fun b hb => h.trackingLive b (htracking.mem_iff.mpr hb)
    trackingOnce := htracking.nodup_iff.mp h.trackingOnce
    table := fun deviceId pid key handle hget => by
      simp only [← htracking.mem_iff, ← hpending.mem_iff]
      exact h.table deviceId pid key handle hget
    pending := fun e he => by
      simp only [← htracking.mem_iff]
      exact h.pending e (hpending.mem_iff.mpr he) }

/-- A block with a descriptor of its own is made. -/
theorem Accounted.create {s : ShmState} (h : Accounted s) {b : OwnedBlock} {memfd : MemFDService}
    (hserial : b.serial = s.created) (hfd : 0 ≤ b.info.fd)
    (hclosed : s.memfd.memories.find? b.info.fd = none)
    (hmem : memfd.memories = s.memfd.memories.insert b.info.fd b.registered)
    (hclear : ∀ e ∈ ShmCall.pending s.calls, e.2.2.fd ≠ b.info.fd) :
    Accounted { s with memfd, calls := .track b :: s.calls, live := b :: s.live,
                       created := s.created + 1 } := by
  have hnew : ∀ b' ∈ s.live, b'.info.fd ≠ b.info.fd := by
    intro b' hb' hsame
    have hreg := h.registered b' hb'
    rw [hsame, hclosed] at hreg
    cases hreg
  have hfresh : b ∉ s.released.map Release.block ++ s.live := by
    intro hmem
    have := h.fresh b hmem
    omega
  have hlive : b ∉ s.live := fun hb => hfresh (List.mem_append_right _ hb)
  exact {
    own := h.own
    once := List.nodup_middle.mpr (List.nodup_cons.mpr ⟨hfresh, h.once⟩)
    registered := by
      simp only [List.forall_mem_cons, hmem, SortedMap.find?_insert, if_true]
      refine ⟨trivial, fun b' hb' => ?_⟩
      rw [if_neg (hnew b' hb')]
      exact h.registered b' hb'
    placed := by
      intro b' hb'
      rw [tracking_track, List.mem_cons]
      rcases List.mem_cons.mp hb' with rfl | hb'
      · exact Or.inl (Or.inl rfl)
      · exact (h.placed b' hb').imp_left Or.inr
    fresh := by
      intro b' hb'
      simp only [List.mem_append, List.mem_cons] at hb'
      rcases hb' with hb' | rfl | hb'
      · exact (h.fresh b' (List.mem_append_left _ hb')).trans (Nat.lt_succ_self _)
      · exact hserial ▸ Nat.lt_succ_self _
      · exact (h.fresh b' (List.mem_append_right _ hb')).trans (Nat.lt_succ_self _)
    nonneg := by
      simp only [List.forall_mem_cons]
      exact ⟨hfd, h.nonneg⟩
    fds := by
      simp only [List.forall_mem_cons]
      refine ⟨⟨fun _ => trivial, fun b' hb' hsame => absurd hsame.symm (hnew b' hb')⟩,
        fun b' hb' => ⟨fun hsame => absurd hsame (hnew b' hb'), h.fds b' hb'⟩⟩
    opened := by
      intro fd
      rw [hmem, SortedMap.find?_insert]
      split_ifs with hsame
      · exact fun _ => ⟨b, List.mem_cons_self, hsame.symm⟩
      · intro hopen
        obtain ⟨b', hb', heq⟩ := h.opened fd hopen
        exact ⟨b', List.mem_cons_of_mem _ hb', heq⟩
    trackingLive := by
      rw [tracking_track]
      exact List.forall_mem_cons.mpr
        ⟨List.mem_cons_self, fun b' hb' => List.mem_cons_of_mem _ (h.trackingLive b' hb')⟩
    trackingOnce := by
      rw [tracking_track, List.nodup_cons]
      exact ⟨fun hb => hlive (h.trackingLive b hb), h.trackingOnce⟩
    table := by
      intro deviceId' pid' key handle hget
      obtain ⟨b', hb', hwho, hhandle, hnot, hnotPending⟩ := h.table _ _ _ _ hget
      refine ⟨b', List.mem_cons_of_mem _ hb', hwho, hhandle, ?_, hnotPending⟩
      rw [tracking_track, List.mem_cons, not_or]
      exact ⟨fun heq => hlive (heq ▸ hb'), hnot⟩
    pending := by
      intro e he b' hb' hsame
      rw [tracking_track, List.mem_cons, not_or]
      rcases List.mem_cons.mp hb' with rfl | hb'
      · exact absurd hsame.symm (hclear e he)
      · obtain ⟨heq, hnot⟩ := h.pending e he b' hb' hsame
        exact ⟨heq, fun heq => hlive (heq ▸ hb'), hnot⟩ }

theorem Accounted.handleAllocate {s : ShmState} (h : Accounted s) (deviceId pid : ℤ)
    (size memAddr physAddrOffset : ℕ) {os : Syscalls} (hfd : -1 ≤ os.createMemFD)
    (hclosed : s.memfd.memories.find? os.createMemFD = none)
    (hclear : ∀ e ∈ ShmCall.pending s.calls, e.2.2.fd ≠ os.createMemFD) :
    Accounted (s.handleAllocate deviceId pid size memAddr physAddrOffset os) := by
  rcases s.handleAllocate_cases deviceId pid size memAddr physAddrOffset os with
    ⟨memfd, hmem, heq⟩ | ⟨hvalid, b, memfd, hserial, hbfd, hmem, heq⟩
  · rw [heq]
    refine { h with registered := fun b hb => ?_, opened := fun fd => ?_ }
    · rw [hmem]
      exact h.registered b hb
    · rw [hmem]
      exact h.opened fd
  · rw [heq]
    rw [← hbfd] at hvalid hfd hclosed hclear hmem
    exact h.create hserial (by omega) hclosed hmem hclear

/-- The live block that an entry of the table stands for. -/
theorem Accounted.entry {s : ShmState} (h : Accounted s) {deviceId pid : ℤ} {key : ℕ}
    {handle : SharedMemHandle}
    (hget : s.handles.tryGetSharedMemoryHandle deviceId pid key = some handle) {b : OwnedBlock}
    (hb : b ∈ s.live) (hfd : b.info.fd = handle.fd) :
    (b.deviceId = deviceId ∧ b.pid = pid) ∧ b.handle = handle ∧ b ∉ tracking s.calls := by
  obtain ⟨b', hb', hwho, rfl, hnot, _⟩ := h.table _ _ _ _ hget
  obtain rfl : b = b' := h.fds b hb b' hb' hfd
  exact ⟨hwho, rfl, hnot⟩

/-- A call takes handles of one process out of the table: all that are left have other
    descriptors. -/
theorem Accounted.take {s : ShmState} (h : Accounted s) {deviceId pid : ℤ} {handles : HandleTable}
    {taken : List SharedMemHandle}
    (htaken : ∀ handle ∈ taken, handle ∈ s.handlesOf deviceId pid)
    (hothers : ∀ deviceId' pid', ¬ (deviceId' = deviceId ∧ pid' = pid) →
      handles.addrMap deviceId' pid' = s.handles.addrMap deviceId' pid')
    (hleft : ∀ key handle, handles.tryGetSharedMemoryHandle deviceId pid key = some handle →
      s.handles.tryGetSharedMemoryHandle deviceId pid key = some handle ∧
        ∀ handle' ∈ taken, handle'.fd ≠ handle.fd)
    (hkept : ∀ key handle, s.handles.tryGetSharedMemoryHandle deviceId pid key = some handle →
      handle ∈ taken ∨ handles.tryGetSharedMemoryHandle deviceId pid key = some handle) :
    Accounted { s with handles, calls := .release deviceId pid taken :: s.calls } := by
  have hsub : ∀ deviceId' pid' key handle,
      handles.tryGetSharedMemoryHandle deviceId' pid' key = some handle →
      s.handles.tryGetSharedMemoryHandle deviceId' pid' key = some handle := by
    intro deviceId' pid' key handle hget
    by_cases hwho : deviceId' = deviceId ∧ pid' = pid
    · obtain ⟨rfl, rfl⟩ := hwho
      exact (hleft key handle hget).1
    · rwa [tryGetSharedMemoryHandle, hothers _ _ hwho] at hget
  refine { h with placed := ?_, table := ?_, pending := ?_ }
  · intro b hb
    simp only [tracking_release, pending_release, List.mem_append, List.mem_map, Prod.mk.injEq]
    rcases h.placed b hb with htrack | ⟨key, hget⟩ | hpending
    · exact Or.inl htrack
    · by_cases hwho : b.deviceId = deviceId ∧ b.pid = pid
      · obtain ⟨rfl, rfl⟩ := hwho
        rcases hkept key b.handle hget with hmem | hstays
        · exact Or.inr (Or.inr (Or.inl ⟨b.handle, hmem, rfl, rfl, rfl⟩))
        · exact Or.inr (Or.inl ⟨key, hstays⟩)
      · refine Or.inr (Or.inl ⟨key, ?_⟩)
        rw [tryGetSharedMemoryHandle, hothers _ _ hwho]
        exact hget
    · exact Or.inr (Or.inr (Or.inr hpending))
  · intro deviceId' pid' key handle hget
    obtain ⟨b, hb, hwho, hhandle, hnot, hnotPending⟩ := h.table _ _ _ _ (hsub _ _ _ _ hget)
    refine ⟨b, hb, hwho, hhandle, hnot, ?_⟩
    simp only [pending_release, List.mem_append, List.mem_map]
    rintro e (⟨handle', hmem, rfl⟩ | he) hsame
    · -- the descriptor is that of a block of the process, and its entries are gone
      obtain ⟨key', hget'⟩ := mem_handlesOf.mp (htaken handle' hmem)
      obtain ⟨⟨rfl, rfl⟩, -, -⟩ := h.entry hget' hb hsame.symm
      obtain ⟨rfl, rfl⟩ := hwho
      refine (hleft key handle hget).2 handle' hmem ?_
      rw [← hhandle]
      exact hsame
    · exact hnotPending e he hsame
  · intro e he b hb hsame
    simp only [pending_release, List.mem_append, List.mem_map] at he
    rcases he with ⟨handle, hmem, rfl⟩ | he
    · obtain ⟨key, hget⟩ := mem_handlesOf.mp (htaken handle hmem)
      obtain ⟨⟨rfl, rfl⟩, rfl, hnot⟩ := h.entry hget hb hsame
      exact ⟨rfl, hnot⟩
    · exact h.pending e he b hb hsame

theorem Accounted.releaseAll {s : ShmState} (h : Accounted s) (deviceId pid : ℤ) :
    Accounted (s.releaseAllSharedMemoryHandlesForProcess deviceId pid) := by
  have hmap := addrMap_releaseAll s.handles deviceId pid
  refine h.take (fun _ hmem => hmem) (fun deviceId' pid' hwho => ?_) (fun key handle hget => ?_)
    fun key handle hget => Or.inl (mem_handlesOf.mpr ⟨key, hget⟩)
  · rw [hmap, if_neg hwho]
  · rw [tryGetSharedMemoryHandle, hmap, if_pos ⟨rfl, rfl⟩] at hget
    cases hget

theorem Accounted.handleDeallocate {s : ShmState} (h : Accounted s) {deviceId pid : ℤ}
    {address : ℕ} (hclear : s.Clear (.handleDeallocate deviceId pid address)) :
    Accounted (s.handleDeallocate deviceId pid address) := by
  have hfound := tryResolve_snd s.handles deviceId pid address
  cases hget : s.handles.tryGetSharedMemoryHandle deviceId pid address with
  | none =>
    rw [hget] at hfound
    rw [ShmState.handleDeallocate, show s.handles.tryResolveSharedMemoryHandle deviceId pid address
      = (_, none) from Prod.ext rfl hfound]
    exact h
  | some handle =>
    rw [hget] at hfound
    rw [ShmState.handleDeallocate, show s.handles.tryResolveSharedMemoryHandle deviceId pid address
      = (_, some handle) from Prod.ext rfl hfound]
    have hkeys := tryGet_resolve hget deviceId pid
    simp only [and_self, true_and] at hkeys
    -- the entries taken out are those of one block
    have hone : ∀ key handle', s.handles.tryGetSharedMemoryHandle deviceId pid key = some handle' →
        handle'.physAddrOffset = handle.physAddrOffset → handle' = handle := by
      intro key handle' hget' hoffset
      have hfd := hclear handle (Option.mem_def.mpr hget) handle' (mem_handlesOf.mpr ⟨key, hget'⟩) hoffset
      obtain ⟨b, hb, -, rfl, -⟩ := h.table _ _ _ _ hget'
      exact (h.entry hget hb hfd).2.1
    refine h.take (fun handle' hmem => ?_) (fun deviceId' pid' hwho =>
      addrMap_tryResolve _ _ hwho) (fun key handle' hget' => ?_) fun key handle' hget' => ?_
    · obtain rfl := List.mem_singleton.mp hmem
      exact mem_handlesOf.mpr ⟨address, hget⟩
    · obtain ⟨hold, hoffset⟩ := (hkeys key handle').mp hget'
      refine ⟨hold, fun handle'' hmem hfd => hoffset ?_⟩
      obtain rfl := List.mem_singleton.mp hmem
      obtain ⟨b, hb, -, rfl, -⟩ := h.table _ _ _ _ hold
      obtain ⟨-, heq, -⟩ := h.entry hget hb hfd.symm
      rw [heq]
    · by_cases hoffset : handle'.physAddrOffset = handle.physAddrOffset
      · exact Or.inl (List.mem_singleton.mpr (hone key handle' hget' hoffset))
      · exact Or.inr ((hkeys key handle').mpr ⟨hget', hoffset⟩)

theorem Accounted.track {s : ShmState} (h : Accounted s) {b : OwnedBlock} {calls : List ShmCall}
    (hcalls : s.calls = .track b :: calls)
    (hclear : ∀ handle ∈ s.handlesOf b.deviceId b.pid,
      ∃ e ∈ (s.handles.addrMap b.deviceId b.pid).entries, e.2 = handle ∧ e.1 ∉ b.keys) :
    Accounted { s with
      calls, handles := s.handles.trackSharedMemoryHandle b.deviceId b.pid b.info } := by
  have htracking : tracking s.calls = b :: tracking calls := by rw [hcalls, tracking_track]
  have hpending : ShmCall.pending s.calls = ShmCall.pending calls := by
    rw [hcalls, pending_track]
  obtain ⟨hnot, honce⟩ := List.nodup_cons.mp (htracking ▸ h.trackingOnce)
  have hlive : b ∈ s.live := h.trackingLive b (htracking ▸ List.mem_cons_self)
  have hsub : ∀ {b'}, b' ∉ tracking s.calls → b' ∉ tracking calls := by
    intro b' hb' hmem
    exact hb' (htracking ▸ List.mem_cons_of_mem _ hmem)
  have hget := tryGet_track_block s.handles b
  refine { h with placed := ?_, trackingLive := ?_, trackingOnce := honce, table := ?_,
                  pending := ?_ }
  · intro b' hb'
    rw [← hpending]
    rcases h.placed b' hb' with htrack | ⟨key, hold⟩ | hreleased
    · rw [htracking] at htrack
      rcases List.mem_cons.mp htrack with rfl | htrack
      · refine Or.inr (Or.inl ⟨b'.info.physAddr, ?_⟩)
        rw [hget, if_pos ⟨⟨rfl, rfl⟩, List.mem_cons_self⟩]
      · exact Or.inl htrack
    · refine Or.inr (Or.inl ?_)
      by_cases hwho : b'.deviceId = b.deviceId ∧ b'.pid = b.pid
      · -- one of the older block's keys is not a key of the new one
        rw [hwho.1, hwho.2] at hold ⊢
        obtain ⟨⟨key', handle'⟩, hmem, hhandle, hkey⟩ :=
          hclear b'.handle (mem_handlesOf.mpr ⟨key, hold⟩)
        refine ⟨key', ?_⟩
        rw [hget, if_neg fun hk => hkey hk.2, tryGetSharedMemoryHandle, SortedMap.find?_eq_some]
        rwa [← hhandle]
      · exact ⟨key, by rw [hget, if_neg fun hk => hwho hk.1]; exact hold⟩
    · exact Or.inr (Or.inr hreleased)
  · exact fun b' hb' => h.trackingLive b' (htracking ▸ List.mem_cons_of_mem _ hb')
  · intro deviceId pid key handle hnew
    rw [← hpending]
    rw [hget] at hnew
    split_ifs at hnew with hkey
    · obtain ⟨⟨rfl, rfl⟩, -⟩ := hkey
      refine ⟨b, hlive, ⟨rfl, rfl⟩, Option.some.inj hnew, hnot, fun e he hsame => ?_⟩
      exact (h.pending e he b hlive hsame.symm).2 (htracking ▸ List.mem_cons_self)
    · obtain ⟨b', hb', hwho, hhandle, hnot', hnotPending⟩ := h.table _ _ _ _ hnew
      exact ⟨b', hb', hwho, hhandle, hsub hnot', hnotPending⟩
  · intro e he b' hb' hsame
    obtain ⟨heq, hnot'⟩ := h.pending e (hpending ▸ he) b' hb' hsame
    exact ⟨heq, hsub hnot'⟩

/-- A finished call is forgotten. -/
theorem Accounted.finish {s : ShmState} (h : Accounted s) {deviceId pid : ℤ}
    {calls : List ShmCall} (hcalls : s.calls = .release deviceId pid [] :: calls) :
    Accounted { s with calls } := by
  have htracking : tracking s.calls = tracking calls := by rw [hcalls, tracking_release]
  have hpending : ShmCall.pending s.calls = ShmCall.pending calls := by
    rw [hcalls, pending_release, List.map_nil, List.nil_append]
  refine { h with placed := ?_, trackingLive := ?_, trackingOnce := ?_, table := ?_,
                  pending := ?_ }
  · rw [← htracking, ← hpending]
    exact h.placed
  · rw [← htracking]
    exact h.trackingLive
  · rw [← htracking]
    exact h.trackingOnce
  · rw [← htracking, ← hpending]
    exact h.table
  · rw [← htracking, ← hpending]
    exact h.pending

/-- A release only moves blocks from the live ones to the released ones. -/
theorem released_perm (s : ShmState) (deviceId pid : ℤ) (handle : SharedMemHandle) :
    (((s.live.filter fun b => b.info.fd = handle.fd).map (fun b => (⟨b, deviceId, pid⟩ : Release)) ++
        s.released).map Release.block ++ s.live.filter fun b => b.info.fd ≠ handle.fd).Perm
      (s.released.map Release.block ++ s.live) := by
  have hsplit : ((s.live.filter fun b => b.info.fd = handle.fd) ++
      s.live.filter fun b => b.info.fd ≠ handle.fd).Perm s.live := by
    simp only [ne_eq, decide_not]
    exact List.filter_append_perm _ _
  have hblock : Release.block ∘ (fun b => (⟨b, deviceId, pid⟩ : Release)) = id := rfl
  rw [List.map_append, List.map_map, hblock, List.map_id]
  exact (List.perm_append_comm.append_right _).trans
    (by rw [List.append_assoc]; exact hsplit.append_left _)

/-- What a call holds is released once more: the block, when it still has one, is of the process, and
    is in no other place. -/
theorem Accounted.releaseHandle {s : ShmState} (h : Accounted s) {deviceId pid : ℤ}
    {handle : SharedMemHandle} (hheld : (deviceId, pid, handle) ∈ ShmCall.pending s.calls) :
    Accounted (s.releaseSharedMemoryHandle deviceId pid handle) := by
  rw [releaseSharedMemoryHandle]
  split_ifs with hfd
  · have hleft : ∀ b, b ∈ s.live.filter (fun b => b.info.fd ≠ handle.fd) ↔
        b ∈ s.live ∧ b.info.fd ≠ handle.fd := by
      intro b
      rw [List.mem_filter, decide_eq_true_eq]
    have hperm := released_perm s deviceId pid handle
    refine ⟨⟨?_, hperm.nodup_iff.mpr h.once, ?_, ?_⟩, ?_, ?_, ?_, ?_, ?_, h.trackingOnce, ?_, ?_⟩
    · intro r hr
      rcases List.mem_append.mp hr with hr | hr
      · obtain ⟨b, hb, rfl⟩ := List.mem_map.mp hr
        rw [List.mem_filter, decide_eq_true_eq] at hb
        obtain ⟨heq, -⟩ := h.pending _ hheld b hb.1 hb.2
        exact ⟨congrArg Prod.fst heq, congrArg (·.2.1) heq⟩
      · exact h.own r hr
    · intro b hb
      obtain ⟨hb, hne⟩ := (hleft b).mp hb
      rw [MemFDService.releaseSharedMemory, SortedMap.find?_erase, if_neg hne]
      exact h.registered b hb
    · exact fun b hb => h.placed b ((hleft b).mp hb).1
    · exact fun b hb => h.fresh b (hperm.mem_iff.mp hb)
    · exact fun b hb => h.nonneg b ((hleft b).mp hb).1
    · exact fun b hb b' hb' => h.fds b ((hleft b).mp hb).1 b' ((hleft b').mp hb').1
    · intro fd hopen
      rw [MemFDService.releaseSharedMemory, SortedMap.find?_erase] at hopen
      split_ifs at hopen with hsame
      · cases hopen
      · obtain ⟨b, hb, rfl⟩ := h.opened fd hopen
        exact ⟨b, (hleft b).mpr ⟨hb, hsame⟩, rfl⟩
    · intro b hb
      refine (hleft b).mpr ⟨h.trackingLive b hb, fun hsame => ?_⟩
      exact (h.pending _ hheld b (h.trackingLive b hb) hsame).2 hb
    · intro deviceId' pid' key handle' hget
      obtain ⟨b, hb, hwho, hhandle, hnot, hnotPending⟩ := h.table _ _ _ _ hget
      exact ⟨b, (hleft b).mpr ⟨hb, fun hsame => hnotPending _ hheld hsame.symm⟩, hwho, hhandle, hnot,
        hnotPending⟩
    · exact fun e he b hb => h.pending e he b ((hleft b).mp hb).1
  · exact h

/-- A released descriptor has no block any more. -/
theorem Accounted.fd_ne_of_released {s : ShmState} (h : Accounted s) {deviceId pid : ℤ}
    {handle : SharedMemHandle} {b : OwnedBlock}
    (hb : b ∈ (s.releaseSharedMemoryHandle deviceId pid handle).live) :
    b.info.fd ≠ handle.fd := by
  rw [releaseSharedMemoryHandle] at hb
  split_ifs at hb with hfd
  · exact of_decide_eq_true (List.mem_filter.mp hb).2
  · exact fun hsame => hfd (hsame ▸ h.nonneg b hb)

/-- A call is done with a descriptor that has no block. -/
theorem Accounted.drop {s : ShmState} (h : Accounted s) {deviceId pid : ℤ}
    {handle : SharedMemHandle} {handles : List SharedMemHandle} {calls : List ShmCall}
    (hcalls : s.calls = .release deviceId pid (handle :: handles) :: calls)
    (hgone : ∀ b ∈ s.live, b.info.fd ≠ handle.fd) :
    Accounted { s with calls := .release deviceId pid handles :: calls } := by
  have htracking : tracking s.calls = tracking calls := by rw [hcalls, tracking_release]
  have hpending : ShmCall.pending s.calls = (deviceId, pid, handle) ::
      ShmCall.pending (.release deviceId pid handles :: calls) := by
    rw [hcalls, pending_release, pending_release, List.map_cons, List.cons_append]
  have htail : ∀ e ∈ ShmCall.pending (.release deviceId pid handles :: calls),
      e ∈ ShmCall.pending s.calls := fun e he => hpending ▸ List.mem_cons_of_mem _ he
  refine { h with
    placed := fun b hb => ?_
    trackingLive := htracking ▸ h.trackingLive
    trackingOnce := htracking ▸ h.trackingOnce
    table := fun deviceId' pid' key handle' hget => ?_
    pending := fun e he b hb hsame => ?_ }
  · rw [tracking_release, ← htracking]
    refine (h.placed b hb).imp_right (Or.imp_right fun hmem => ?_)
    rw [hpending, List.mem_cons] at hmem
    refine hmem.resolve_left fun heq => hgone b hb ?_
    exact congrArg (fun e : ℤ × ℤ × SharedMemHandle => e.2.2.fd) heq
  · obtain ⟨b, hb, hwho, hhandle, hnot, hnotPending⟩ := h.table _ _ _ _ hget
    rw [tracking_release, ← htracking]
    exact ⟨b, hb, hwho, hhandle, hnot, fun e he => hnotPending e (htail e he)⟩
  · rw [tracking_release, ← htracking]
    exact h.pending e (htail e he) b hb hsame

theorem releaseSharedMemoryHandle_calls (s : ShmState) (deviceId pid : ℤ)
    (handle : SharedMemHandle) (calls : List ShmCall) :
    { s with calls }.releaseSharedMemoryHandle deviceId pid handle =
      { s.releaseSharedMemoryHandle deviceId pid handle with calls } := by
  rw [releaseSharedMemoryHandle, releaseSharedMemoryHandle]
  split_ifs <;> rfl

theorem Accounted.release {s : ShmState} (h : Accounted s) {deviceId pid : ℤ}
    {handle : SharedMemHandle} {handles : List SharedMemHandle} {calls : List ShmCall}
    (hcalls : s.calls = .release deviceId pid (handle :: handles) :: calls) :
    Accounted ({ s with calls }.resume (.release deviceId pid (handle :: handles))) := by
  have hheld : (deviceId, pid, handle) ∈ ShmCall.pending s.calls := by
    rw [hcalls, pending_release]
    exact List.mem_cons_self
  have hsame : (s.releaseSharedMemoryHandle deviceId pid handle).calls = s.calls := by
    rw [releaseSharedMemoryHandle]
    split_ifs <;> rfl
  simp only [ShmState.resume, releaseSharedMemoryHandle_calls]
  exact (h.releaseHandle hheld).drop (hsame.trans hcalls) fun b hb => h.fd_ne_of_released hb

/-! ### Every run -/

theorem Accounted.resume {s : ShmState} (h : Accounted s) {i : ℕ} (hclear : s.Clear (.resume i)) :
    Accounted (s.exec (.resume i)) := by
  rw [exec]
  cases hi : s.calls[i]? with
  | none => exact h
  | some call =>
    obtain ⟨hlt, rfl⟩ := List.getElem?_eq_some_iff.mp hi
    have hfront := h.perm (List.getElem_cons_eraseIdx_perm hlt).symm
    have hclear : ∀ b ∈ some s.calls[i] >>= tracked?, ∀ handle ∈ s.handlesOf b.deviceId b.pid,
        ∃ e ∈ (s.handles.addrMap b.deviceId b.pid).entries, e.2 = handle ∧ e.1 ∉ b.keys := by
      rw [← hi]
      exact hclear
    generalize s.calls[i] = call at hfront hclear
    simp only
    match call with
    | .track b => exact hfront.track rfl (hclear b rfl)
    | .release _ _ [] => exact hfront.finish rfl
    | .release _ _ (_ :: _) => exact hfront.release rfl

theorem accounted_step (s s' : ShmState) (hst : Step Clear s s') (h : Accounted s) :
    Accounted s' := by
  obtain ⟨event, hpossible, hclear, rfl⟩ := hst
  cases event with
  | handleAllocate deviceId pid size memAddr physAddrOffset os =>
    exact h.handleAllocate deviceId pid size memAddr physAddrOffset hpossible.1 hpossible.2 hclear
  | handleDeallocate deviceId pid address => exact h.handleDeallocate hclear
  | releaseAll deviceId pid => exact h.releaseAll deviceId pid
  | resume i => exact h.resume hclear

/-- A call changes the entries of its own process only. -/
theorem addrMap_exec (s : ShmState) {event : Event} {deviceId pid : ℤ}
    (hcaller : s.caller event ≠ some (deviceId, pid)) :
    (s.exec event).handles.addrMap deviceId pid = s.handles.addrMap deviceId pid := by
  have hother : ∀ {deviceId' pid' : ℤ}, some (deviceId', pid') ≠ some (deviceId, pid) →
      ¬ (deviceId = deviceId' ∧ pid = pid') := by
    rintro _ _ hne ⟨rfl, rfl⟩
    exact hne rfl
  cases event with
  | handleAllocate deviceId' pid' size memAddr physAddrOffset os =>
    rcases s.handleAllocate_cases deviceId' pid' size memAddr physAddrOffset os with
      ⟨_, -, heq⟩ | ⟨-, _, _, -, -, -, heq⟩ <;> rw [exec, heq]
  | handleDeallocate deviceId' pid' address =>
    rw [exec, handleDeallocate]
    have hstays := addrMap_tryResolve s.handles address (hother hcaller)
    cases hresolve : s.handles.tryResolveSharedMemoryHandle deviceId' pid' address with
    | mk handles found =>
      rw [hresolve] at hstays
      cases found with
      | none => rfl
      | some handle => exact hstays
  | releaseAll deviceId' pid' =>
    rw [exec, ShmState.releaseAllSharedMemoryHandlesForProcess, addrMap_releaseAll,
      if_neg (hother hcaller)]
  | resume i =>
    rw [exec]
    simp only [caller] at hcaller
    cases hi : s.calls[i]? with
    | none => rfl
    | some call =>
      rw [hi, Option.map_some] at hcaller
      match call with
      | .track b =>
        simp only [ShmState.resume, trackSharedMemoryHandle, addrMap_setAddrMap,
          if_neg (hother hcaller)]
      | .release _ _ [] => rfl
      | .release _ _ (handle :: _) =>
        simp only [ShmState.resume, releaseSharedMemoryHandle]
        split_ifs <;> rfl

/-- A block that has been taken out of the table for good: as long as it is live, it is neither in
    the table nor on its way into it. -/
structure TakenOut (b : OwnedBlock) (s : ShmState) : Prop where
  made : b ∈ s.released.map Release.block ++ s.live
  out : b ∈ s.live → b ∉ tracking s.calls ∧
    ∀ key, s.handles.tryGetSharedMemoryHandle b.deviceId b.pid key ≠ some b.handle

theorem TakenOut.resume {b : OwnedBlock} {s : ShmState} (ht : TakenOut b s) (h : Accounted s)
    (i : ℕ) : TakenOut b (s.exec (.resume i)) := by
  rw [exec]
  cases hi : s.calls[i]? with
  | none => exact ht
  | some call =>
    obtain ⟨hlt, rfl⟩ := List.getElem?_eq_some_iff.mp hi
    have hperm : (tracking s.calls).Perm (tracking (s.calls[i] :: s.calls.eraseIdx i)) :=
      (List.getElem_cons_eraseIdx_perm hlt).symm.filterMap _
    generalize s.calls[i] = call at hperm
    simp only
    match call with
    | .track b' =>
      rw [tracking_track] at hperm
      refine ⟨ht.made, fun hb => ?_⟩
      obtain ⟨hnot, hout⟩ := ht.out hb
      rw [hperm.mem_iff, List.mem_cons, not_or] at hnot
      refine ⟨hnot.2, fun key => ?_⟩
      simp only [ShmState.resume, tryGet_track_block]
      split_ifs with hkey
      · -- the new entry is that of another live block
        intro heq
        have hb' : b' ∈ s.live :=
          h.trackingLive b' (hperm.mem_iff.mpr List.mem_cons_self)
        refine hnot.1 (h.fds b hb b' hb' ?_)
        exact (congrArg SharedMemHandle.fd (Option.some.inj heq)).symm
      · exact hout key
    | .release _ _ [] =>
      rw [tracking_release] at hperm
      exact ⟨ht.made, fun hb => ⟨fun hmem => (ht.out hb).1 (hperm.mem_iff.mpr hmem), (ht.out hb).2⟩⟩
    | .release deviceId pid (handle :: _) =>
      rw [tracking_release] at hperm
      simp only [ShmState.resume, releaseSharedMemoryHandle]
      split_ifs
      · refine ⟨(released_perm s deviceId pid handle).mem_iff.mpr ht.made, fun hb => ?_⟩
        obtain ⟨hnot, hout⟩ := ht.out (List.mem_of_mem_filter hb)
        exact ⟨fun hmem => hnot (hperm.mem_iff.mpr hmem), hout⟩
      · exact ⟨ht.made,
          fun hb => ⟨fun hmem => (ht.out hb).1 (hperm.mem_iff.mpr hmem), (ht.out hb).2⟩⟩

theorem takenOut_step {b : OwnedBlock} (s s' : ShmState) (hst : Step Clear s s')
    (h : Accounted s ∧ TakenOut b s) : Accounted s' ∧ TakenOut b s' := by
  obtain ⟨h, ht⟩ := h
  refine ⟨accounted_step s s' hst h, ?_⟩
  obtain ⟨event, hpossible, hclear, rfl⟩ := hst
  cases event with
  | handleAllocate deviceId pid size memAddr physAddrOffset os =>
    rcases s.handleAllocate_cases deviceId pid size memAddr physAddrOffset os with
      ⟨_, -, heq⟩ | ⟨-, b', _, hserial, -, -, heq⟩
    · rw [exec, heq]
      exact ⟨ht.made, ht.out⟩
    · have hne : b ≠ b' := fun heq => absurd (h.fresh b ht.made) (by rw [heq, hserial]; exact lt_irrefl _)
      rw [exec, heq]
      refine ⟨List.perm_middle.mem_iff.mpr (List.mem_cons_of_mem _ ht.made), fun hb => ?_⟩
      obtain ⟨hnot, hout⟩ := ht.out ((List.mem_cons.mp hb).resolve_left hne)
      refine ⟨?_, hout⟩
      rw [tracking_track, List.mem_cons, not_or]
      exact ⟨hne, hnot⟩
  | handleDeallocate deviceId pid address =>
    rw [exec, handleDeallocate]
    cases hresolve : s.handles.tryResolveSharedMemoryHandle deviceId pid address with
    | mk handles found =>
      cases found with
      | none => exact ht
      | some handle =>
        refine ⟨ht.made, fun hb => ⟨(ht.out hb).1, fun key hget => ?_⟩⟩
        have hfound := tryResolve_snd s.handles deviceId pid address
        rw [hresolve] at hfound
        have hkeys := tryGet_resolve hfound.symm b.deviceId b.pid key b.handle
        rw [hresolve] at hkeys
        exact (ht.out hb).2 key (hkeys.mp hget).1
  | releaseAll deviceId pid =>
    refine ⟨ht.made, fun hb => ⟨(ht.out hb).1, fun key hget => ?_⟩⟩
    simp only [exec, ShmState.releaseAllSharedMemoryHandlesForProcess, tryGetSharedMemoryHandle,
      addrMap_releaseAll] at hget
    split_ifs at hget
    · cases hget
    · exact (ht.out hb).2 key hget
  | resume i => exact ht.resume h i

/-- A call that releases handles returns after one step for each of them and one more. -/
theorem release_returns {deviceId pid : ℤ} {handles : List SharedMemHandle} :
    ∀ {s : ShmState} {calls : List ShmCall}, s.calls = .release deviceId pid handles :: calls →
      ((fun s : ShmState => s.exec (.resume 0))^[handles.length + 1] s).calls = calls := by
  induction handles with
  | nil =>
    intro s calls hcalls
    simp [exec, hcalls, ShmState.resume]
  | cons handle handles ih =>
    intro s calls hcalls
    rw [List.length_cons, Function.iterate_succ_apply]
    refine ih ?_
    simp only [exec, hcalls, List.getElem?_cons_zero, List.eraseIdx_cons_zero, ShmState.resume,
      releaseSharedMemoryHandle]
    split_ifs <;> rfl

/-- In every run in which no new block gets a descriptor that a call is still going to release, and
    the keys of a process lead to its blocks: each release is done by a call of the block's own
    process and none is done twice; a call leaves the entries of other processes alone; a block that
    was tracked when its process left is, from then on, about to be released by a call of the
    process, or has been released exactly once; and such a call comes to its end. -/
theorem own_releases {s : ShmState} (hrun : Relation.ReflTransGen (Step Clear) init s) :
    s.OwnReleases ∧
    (∀ event deviceId pid, s.caller event ≠ some (deviceId, pid) →
      (s.exec event).handles.addrMap deviceId pid = s.handles.addrMap deviceId pid) ∧
    (∀ b ∈ s.live, b ∉ tracking s.calls → ∀ s',
      Relation.ReflTransGen (Step Clear) (s.exec (.releaseAll b.deviceId b.pid)) s' →
      (b.deviceId, b.pid, b.handle) ∈ pending s'.calls ∨
        (s'.released.map Release.block).count b = 1 ∧ b ∉ s'.live) ∧
    ∀ deviceId pid handles calls, s.calls = .release deviceId pid handles :: calls →
      ((fun s : ShmState => s.exec (.resume 0))^[handles.length + 1] s).calls = calls := by
  have h := Run.invariant accounted_step hrun accounted_init
  refine ⟨h.toOwnReleases, fun _ _ _ => addrMap_exec s, fun b hb hnot s' hrun' => ?_,
    fun _ _ _ _ => release_returns⟩
  have hout : TakenOut b (s.exec (.releaseAll b.deviceId b.pid)) := by
    refine ⟨List.mem_append_right _ hb, fun _ => ⟨hnot, fun key hget => ?_⟩⟩
    simp only [exec, ShmState.releaseAllSharedMemoryHandlesForProcess, tryGetSharedMemoryHandle,
      addrMap_releaseAll, and_self, if_true] at hget
    cases hget
  obtain ⟨h', hout'⟩ := Run.invariant takenOut_step hrun' ⟨h.releaseAll b.deviceId b.pid, hout⟩
  by_cases hlive : b ∈ s'.live
  · obtain ⟨hnot', hgone⟩ := hout'.out hlive
    rcases h'.placed b hlive with htrack | ⟨key, hget⟩ | hpending
    · exact absurd htrack hnot'
    · exact absurd hget (hgone key)
    · exact Or.inl hpending
  · refine Or.inr ⟨List.count_eq_one_of_mem h'.once.of_append_left ?_, hlive⟩
    exact (List.mem_append.mp hout'.made).resolve_right hlive

/-- The answers of the system for a page at descriptor 5. -/
def page5 : Syscalls := ⟨5, 2 ^ 30, true⟩

/-- Process 7 gets a page. -/
def tracked7 : ShmState := [Event.handleAllocate 0 7 4096 4096 0 page5, .resume 0].foldl exec init

theorem tracked7_run : Relation.ReflTransGen (Step Clear) init tracked7 :=
  (Relation.ReflTransGen.refl
    ).tail ⟨.handleAllocate 0 7 4096 4096 0 page5, by decide +kernel, by decide +kernel, rfl⟩
    |>.tail ⟨.resume 0, trivial, by decide +kernel, rfl⟩

/-- Process 7 leaves, and its page goes with it. -/
theorem own_releases_page : ∃ b ∈ tracked7.live,
    ((([Event.resume 0, .resume 0, .resume 0].foldl exec
      (tracked7.exec (.releaseAll 0 7))).released.map Release.block).count b = 1) := by
  obtain ⟨-, -, hleave, -⟩ := own_releases tracked7_run
  have hmem : (⟨0, 0, 7, ⟨1, 4096, 2 ^ 30, 4096, 0, 5⟩⟩ : OwnedBlock) ∈ tracked7.live := by
    decide +kernel
  have hrun : Relation.ReflTransGen (Step Clear) (tracked7.exec (.releaseAll 0 7))
      ([Event.resume 0, .resume 0, .resume 0].foldl exec (tracked7.exec (.releaseAll 0 7))) :=
    (Relation.ReflTransGen.refl
      ).tail ⟨.resume 0, trivial, by decide +kernel, rfl⟩
      |>.tail ⟨.resume 0, trivial, by decide +kernel, rfl⟩
      |>.tail ⟨.resume 0, trivial, by decide +kernel, rfl⟩
  refine ⟨_, hmem, ?_⟩
  rcases hleave _ hmem (by decide +kernel) _ hrun with hpending | ⟨hcount, -⟩
  · exact absurd hpending (by decide +kernel)
  · exact hcount

/-- Between two releases of descriptor 5 by the leaving process 7, process 8 gets a page, and the
    system gives it the same number: the second release takes the page of process 8. -/
theorem foreign_release :
    ¬ ∀ s, Relation.ReflTransGen (Step fun _ _ => True) init s → s.OwnReleases := by
  intro hall
  have hrun : Relation.ReflTransGen (Step fun _ _ => True) init
      ([Event.handleAllocate 0 7 4096 4096 0 page5, .resume 0, .releaseAll 0 7, .resume 0,
        .handleAllocate 0 8 4096 4096 4096 page5, .resume 0, .resume 0].foldl exec init) :=
    (Relation.ReflTransGen.refl
      ).tail ⟨.handleAllocate 0 7 4096 4096 0 page5, by decide +kernel, trivial, rfl⟩
      |>.tail ⟨.resume 0, trivial, trivial, rfl⟩
      |>.tail ⟨.releaseAll 0 7, trivial, trivial, rfl⟩
      |>.tail ⟨.resume 0, trivial, trivial, rfl⟩
      |>.tail ⟨.handleAllocate 0 8 4096 4096 4096 page5, by decide +kernel, trivial, rfl⟩
      |>.tail ⟨.resume 0, trivial, trivial, rfl⟩
      |>.tail ⟨.resume 0, trivial, trivial, rfl⟩
  have hown := (hall _ hrun).own
  revert hown
  decide +kernel

end ShmState
end DxRt
