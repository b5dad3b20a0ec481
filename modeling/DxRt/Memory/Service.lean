import DxRt.Memory.Pool

/-! lib/dxrt_service/memory_service.cpp: the per-device memory service.

    The service wraps one pool and two registries of who owns which address: `_legacyAllocInfo`
    per process, `_taskAllocInfo` per process and task. The four allocation functions differ in the
    end of the pool they cut from and in the registry they write; both are parameters of
    `allocateWith`. Process and task ids are `int`s. -/

namespace DxRt

abbrev AddrSet := SortedMap ℕ Unit

structure MemoryService where
  mem : Memory
  legacyAllocInfo : SortedMap ℤ AddrSet
  taskAllocInfo : SortedMap ℤ (SortedMap ℤ AddrSet)
  deriving DecidableEq

namespace MemoryService
open MemoryConfig

def ofInfo (memSize : ℕ) : MemoryService := ⟨Memory.ofInfo memSize, .empty, .empty⟩

/-- `_legacyAllocInfo[pid].insert(addr)`. -/
def trackLegacy (s : MemoryService) (pid : ℤ) (addr : ℕ) : MemoryService :=
  { s with
    legacyAllocInfo := s.legacyAllocInfo.insert pid
      (((s.legacyAllocInfo.find? pid).getD .empty).insert addr ()) }

/-- `_taskAllocInfo[pid][taskId].insert(addr)`. -/
def trackTask (s : MemoryService) (pid taskId : ℤ) (addr : ℕ) : MemoryService :=
  let tasks := (s.taskAllocInfo.find? pid).getD .empty
  { s with
    taskAllocInfo := s.taskAllocInfo.insert pid
      (tasks.insert taskId (((tasks.find? taskId).getD .empty).insert addr ())) }

/-- The pre-check of all allocation functions: only requests above 100 MB are checked. -/
def admits (s : MemoryService) (size : ℕ) : Bool :=
  !(decide (LARGE_ALLOCATION_THRESHOLD < size) && !s.mem.canAllocateContiguous size)

/-- Pre-check, pool allocation, and the registry entry of a successful one. -/
def allocateWith (alloc : Memory → ℕ → Memory × ℕ)
    (track : MemoryService → ℕ → MemoryService) (s : MemoryService) (size : ℕ) :
    MemoryService × ℕ :=
  if s.admits size then
    let (mem, addr) := alloc s.mem size
    let s := { s with mem := mem }
    (if addr ≠ NEG1 then track s addr else s, addr)
  else (s, NEG1)

def allocate (s : MemoryService) (size : ℕ) (pid : ℤ) : MemoryService × ℕ :=
  s.allocateWith Memory.allocate (fun s => s.trackLegacy pid) size

def backwardAllocate (s : MemoryService) (size : ℕ) (pid : ℤ) : MemoryService × ℕ :=
  s.allocateWith Memory.backwardAllocate (fun s => s.trackLegacy pid) size

def allocateForTask (s : MemoryService) (size : ℕ) (pid taskId : ℤ) : MemoryService × ℕ :=
  s.allocateWith Memory.allocate (fun s => s.trackTask pid taskId) size

def backwardAllocateForTask (s : MemoryService) (size : ℕ) (pid taskId : ℤ) :
    MemoryService × ℕ :=
  s.allocateWith Memory.backwardAllocate (fun s => s.trackTask pid taskId) size

/-- Part 2 of `DeallocateAddress`: the first task of `pid` that recorded `addr` loses it; an
    emptied task, and then an emptied process, is removed. -/
def deallocateTaskAddress (s : MemoryService) (addr : ℕ) (pid : ℤ) : MemoryService × Bool :=
  match s.taskAllocInfo.find? pid with
  | none => (s, false)
  | some tasks =>
    match tasks.entries.find? (fun e => e.2.contains addr) with
    | none => (s, false)
    | some (taskId, addrSet) =>
      let addrSet := addrSet.erase addr
      let tasks := if addrSet.isEmpty then tasks.erase taskId else tasks.insert taskId addrSet
      ({ s with
          mem := s.mem.deallocate addr
          taskAllocInfo :=
            if tasks.isEmpty then s.taskAllocInfo.erase pid else s.taskAllocInfo.insert pid tasks },
        true)

/-- `DeallocateAddress(addr, pid)`: the legacy registry first, then the task registry. -/
def deallocateAddress (s : MemoryService) (addr : ℕ) (pid : ℤ) : MemoryService × Bool :=
  match s.legacyAllocInfo.find? pid with
  | some addrSet =>
    if addrSet.contains addr then
      ({ s with
          mem := s.mem.deallocate addr
          legacyAllocInfo := s.legacyAllocInfo.insert pid (addrSet.erase addr) }, true)
    else s.deallocateTaskAddress addr pid
  | none => s.deallocateTaskAddress addr pid

/-- The loop `for (auto addr : ...) _mem->Deallocate(addr)`. -/
def freeAll (mem : Memory) (addrs : List ℕ) : Memory := addrs.foldl Memory.deallocate mem

/-- All addresses recorded for the tasks of one process, in map order. -/
def taskAddrs (tasks : SortedMap ℤ AddrSet) : List ℕ := tasks.entries.flatMap fun e => e.2.keys

def deallocateAllTasks (s : MemoryService) (pid : ℤ) : MemoryService :=
  match s.taskAllocInfo.find? pid with
  | none => s
  | some tasks =>
    { s with mem := freeAll s.mem (taskAddrs tasks), taskAllocInfo := s.taskAllocInfo.erase pid }

/-- The legacy half of `DeallocateAll` and `DeallocateAllForProcess`. -/
def deallocateLegacy (s : MemoryService) (pid : ℤ) : MemoryService :=
  match s.legacyAllocInfo.find? pid with
  | none => s
  | some addrSet =>
    { s with mem := freeAll s.mem addrSet.keys, legacyAllocInfo := s.legacyAllocInfo.erase pid }

def deallocateAll (s : MemoryService) (pid : ℤ) : MemoryService :=
  (s.deallocateAllTasks pid).deallocateLegacy pid

def deallocateAllForProcess (s : MemoryService) (pid : ℤ) : MemoryService × Bool :=
  ((s.deallocateAllTasks pid).deallocateLegacy pid,
    s.taskAllocInfo.contains pid || s.legacyAllocInfo.contains pid)

/-- `DeallocateTask(pid, taskId)`: every recorded address is freed, `-1` being skipped, and the
    task is removed. -/
def deallocateTask (s : MemoryService) (pid taskId : ℤ) : MemoryService × Bool :=
  match s.taskAllocInfo.find? pid with
  | none => (s, false)
  | some tasks =>
    match tasks.find? taskId with
    | none => (s, false)
    | some addrSet =>
      let tasks := tasks.erase taskId
      ({ s with
          mem := freeAll s.mem (addrSet.keys.filter fun addr => decide (addr ≠ NEG1))
          taskAllocInfo :=
            if tasks.isEmpty then s.taskAllocInfo.erase pid else s.taskAllocInfo.insert pid tasks },
        true)

/-- `IsTaskValid(pid, taskId)`: a missing task is logged, but only a missing process is refused. -/
def isTaskValid (s : MemoryService) (pid : ℤ) (_taskId : ℤ) : Bool := s.taskAllocInfo.contains pid

def freeSize (s : MemoryService) : ℕ := s.mem.freeSize

def optimizeMemory (s : MemoryService) : MemoryService :=
  if LOW_FRAGMENTATION_THRESHOLD < s.mem.getFragmentationInfo.fragmentationRatio then
    { s with mem := s.mem.compactMemory }
  else s

/-- The calls that change a memory service. -/
inductive Op where
  | allocate (size : ℕ) (pid : ℤ)
  | backwardAllocate (size : ℕ) (pid : ℤ)
  | allocateForTask (size : ℕ) (pid taskId : ℤ)
  | backwardAllocateForTask (size : ℕ) (pid taskId : ℤ)
  | deallocateAddress (addr : ℕ) (pid : ℤ)
  | deallocateTask (pid taskId : ℤ)
  | deallocateAll (pid : ℤ)
  | deallocateAllTasks (pid : ℤ)
  | deallocateAllForProcess (pid : ℤ)
  | optimizeMemory

def exec (s : MemoryService) : Op → MemoryService
  | .allocate size pid => (s.allocate size pid).1
  | .backwardAllocate size pid => (s.backwardAllocate size pid).1
  | .allocateForTask size pid taskId => (s.allocateForTask size pid taskId).1
  | .backwardAllocateForTask size pid taskId => (s.backwardAllocateForTask size pid taskId).1
  | .deallocateAddress addr pid => (s.deallocateAddress addr pid).1
  | .deallocateTask pid taskId => (s.deallocateTask pid taskId).1
  | .deallocateAll pid => s.deallocateAll pid
  | .deallocateAllTasks pid => s.deallocateAllTasks pid
  | .deallocateAllForProcess pid => (s.deallocateAllForProcess pid).1
  | .optimizeMemory => s.optimizeMemory

end MemoryService
end DxRt
