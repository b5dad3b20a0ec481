import DxRt.Lib.SortedMap

/-! lib/memory.cpp, lib/include/dxrt/memory.h: the device memory pool.

    `Memory` owns an ordered map from start address to node. `Allocate` cuts a block from the low
    end of a best-fitting free node, `BackwardAllocate` from the high end, `Deallocate` frees a
    node and merges it with its free neighbours. All quantities are `uint64_t`; they are kept as
    natural numbers below `2^64`, with every wrapping operation written as `% 2^64`. The `int64_t`
    results are kept as their 64-bit pattern, so `-1` is `NEG1`. -/

namespace DxRt

/-- `UINT64_MAX`. -/
def UINT64_MAX : ℕ := 2 ^ 64 - 1

/-- The 64-bit pattern of `-1`, what a failed allocation returns. -/
def NEG1 : ℕ := 2 ^ 64 - 1

namespace MemoryConfig

/-- 100 MB - considered large. -/
def LARGE_ALLOCATION_THRESHOLD : ℕ := 100 * 1024 * 1024

/-- 50% - trigger light defrag. -/
def MEDIUM_FRAGMENTATION_THRESHOLD : Float := 0.5

/-- 30% - trigger warning and basic cleanup. -/
def LOW_FRAGMENTATION_THRESHOLD : Float := 0.3

def MEMORY_ALIGNMENT : ℕ := 4096

end MemoryConfig

/-- 0: available, 1: busy, 2: permanent. -/
inductive Status where | available | busy | permanent
  deriving DecidableEq

structure MemoryNode where
  addr : ℕ
  size : ℕ
  status : Status
  deriving DecidableEq

abbrev PoolEntry := ℕ × MemoryNode

structure Memory where
  pool : SortedMap ℕ MemoryNode
  size : ℕ
  usedSize : ℕ
  deriving DecidableEq

structure MemoryFragmentationInfo where
  totalFreeSize : ℕ
  largestFreeBlock : ℕ
  smallestFreeBlock : ℕ
  freeBlockCount : ℕ
  fragmentationRatio : Float

namespace Memory
open MemoryConfig

/-- `Memory(info, data)`: one free node over the whole device memory. -/
def ofInfo (memSize : ℕ) : Memory where
  pool := SortedMap.empty.insert 0 ⟨0, memSize, .available⟩
  size := memSize
  usedSize := 0

/-- `(size + MEMORY_ALIGNMENT - 1) & ~(MEMORY_ALIGNMENT - 1)` on `uint64_t`. -/
def alignSize (size : ℕ) : ℕ :=
  ((size + MEMORY_ALIGNMENT - 1) % 2 ^ 64) &&& (2 ^ 64 - MEMORY_ALIGNMENT)

/-- One step of a best-fit scan: a free node that is large enough and strictly smaller than the
    best one so far replaces it. -/
def betterFit (required : ℕ) (best : Option PoolEntry × ℕ) (it : PoolEntry) :
    Option PoolEntry × ℕ :=
  if it.2.status = .available ∧ required ≤ it.2.size ∧ it.2.size < best.2 then
    (some it, it.2.size)
  else best

/-- The best-fit scan over the nodes in the order given. -/
def scanBestFit (required : ℕ) (nodes : List PoolEntry) : Option PoolEntry :=
  (nodes.foldl (betterFit required) (none, UINT64_MAX)).1

/-- Scans from `begin()`, so the lowest of the smallest sufficient nodes wins. -/
def findBestFit (m : Memory) (required : ℕ) : Option PoolEntry :=
  scanBestFit required m.pool.entries

/-- The scan of `BackwardAllocate`, from `rbegin()`. -/
def findBestFitBackward (m : Memory) (required : ℕ) : Option PoolEntry :=
  scanBestFit required m.pool.entries.reverse

/-- One node of the accounting loop of `GetFragmentationInfoNoLock`. -/
def countNode (info : MemoryFragmentationInfo) (it : PoolEntry) : MemoryFragmentationInfo :=
  if it.2.status = .available then
    { info with
      totalFreeSize := (info.totalFreeSize + it.2.size) % 2 ^ 64
      freeBlockCount := info.freeBlockCount + 1
      largestFreeBlock :=
        if info.largestFreeBlock < it.2.size then it.2.size else info.largestFreeBlock
      smallestFreeBlock :=
        if it.2.size < info.smallestFreeBlock then it.2.size else info.smallestFreeBlock }
  else info

def getFragmentationInfo (m : Memory) : MemoryFragmentationInfo :=
  let info := m.pool.entries.foldl countNode ⟨0, 0, UINT64_MAX, 0, 0.0⟩
  if info.freeBlockCount = 0 then
    { info with smallestFreeBlock := 0, fragmentationRatio := 0.0 }
  else if 0 < info.totalFreeSize then
    { info with
      fragmentationRatio :=
        (UInt64.ofNat (info.totalFreeSize - info.largestFreeBlock)).toFloat
          / (UInt64.ofNat info.totalFreeSize).toFloat }
  else { info with fragmentationRatio := 0.0 }

def canAllocateContiguous (m : Memory) (required : ℕ) : Bool :=
  m.pool.entries.any fun it => decide (it.2.status = .available ∧ required ≤ it.2.size)

def getLargestFreeBlock (m : Memory) : ℕ :=
  m.pool.entries.foldl (fun largest it =>
    if it.2.status = .available ∧ largest < it.2.size then it.2.size else largest) 0

/-- The scan of `MergeAllAdjacentFreeBlocks`: the first free node whose successor is free and
    starts where it ends. -/
def firstMergeable : List PoolEntry → Option (PoolEntry × PoolEntry)
  | it :: next :: rest =>
    if it.2.status = .available ∧ next.2.status = .available ∧
        (it.1 + it.2.size) % 2 ^ 64 = next.1 then some (it, next)
    else firstMergeable (next :: rest)
  | _ => none

/-- Erases two nodes and puts their union, free, at `addr`. -/
def fuse (pool : SortedMap ℕ MemoryNode) (addr erased : ℕ) (size : ℕ) : SortedMap ℕ MemoryNode :=
  ((pool.erase addr).erase erased).insert addr ⟨addr, size, .available⟩

/-- `MergeAllAdjacentFreeBlocks`: merge one pair and restart the scan, until no pair is left.
    Every pass removes a node, so the number of nodes bounds the passes. -/
def mergeAllAdjacentFreeBlocks : ℕ → SortedMap ℕ MemoryNode → SortedMap ℕ MemoryNode
  | 0, pool => pool
  | fuel + 1, pool =>
    match firstMergeable pool.entries with
    | none => pool
    | some (it, next) =>
      mergeAllAdjacentFreeBlocks fuel
        (fuse pool it.1 next.1 ((it.2.size + next.2.size) % 2 ^ 64))

/-- Only the merge is implemented; blocks are never moved. -/
def compactMemory (m : Memory) : Memory :=
  { m with pool := mergeAllAdjacentFreeBlocks m.pool.entries.length m.pool }

def tryDefragmentation (m : Memory) (required : ℕ) : Memory × Bool :=
  let m := m.compactMemory
  (m, decide (required ≤ m.getLargestFreeBlock))

/-- A best-fit scan with the second attempt after defragmentation for large requests. -/
def findWithDefragmentation (find : Memory → ℕ → Option PoolEntry) (m : Memory) (required : ℕ) :
    Memory × Option PoolEntry :=
  match find m required with
  | some it => (m, some it)
  | none =>
    if LARGE_ALLOCATION_THRESHOLD ≤ required then
      if MEDIUM_FRAGMENTATION_THRESHOLD < m.getFragmentationInfo.fragmentationRatio then
        let (m, merged) := m.tryDefragmentation required
        (m, if merged then find m required else none)
      else (m, none)
    else (m, none)

/-- `Memory::Allocate(required)`. -/
def allocate (m : Memory) (required : ℕ) : Memory × ℕ :=
  let required := if required = 0 then 64 else required
  let required := alignSize required
  match findWithDefragmentation findBestFit m required with
  | (m, some (_, node)) =>
    let addr := node.addr
    let rest := (addr + required) % 2 ^ 64
    let pool :=
      if required < node.size then m.pool.insert rest ⟨rest, node.size - required, .available⟩
      else m.pool
    ({ m with
        pool := pool.insert addr ⟨addr, required, .busy⟩
        usedSize := (m.usedSize + required) % 2 ^ 64 }, addr)
  | (m, none) => (m, NEG1)

/-- `Memory::BackwardAllocate(required)`; a zero request is not replaced by 64 here. -/
def backwardAllocate (m : Memory) (required : ℕ) : Memory × ℕ :=
  let required := alignSize required
  match findWithDefragmentation findBestFitBackward m required with
  | (m, some (_, node)) =>
    let addr := node.addr
    let remain := node.size - required
    let pool :=
      if required < node.size then m.pool.insert addr ⟨addr, remain, .available⟩ else m.pool
    let addr := if required < node.size then (addr + remain) % 2 ^ 64 else addr
    ({ m with
        pool := pool.insert addr ⟨addr, required, .busy⟩
        usedSize := (m.usedSize + required) % 2 ^ 64 }, addr)
  | (m, none) => (m, NEG1)

/-- `MergeAdjacentNodes(it)`: join with the predecessor if that is free, else with the successor,
    and start again at the joined node. Every call removes a node. -/
def mergeAdjacentNodes : ℕ → SortedMap ℕ MemoryNode → ℕ → SortedMap ℕ MemoryNode
  | 0, pool, _ => pool
  | fuel + 1, pool, key =>
    match pool.find? key with
    | none => pool
    | some it =>
      let mergeNext :=
        match pool.next? key with
        | some (nextKey, next) =>
          if next.status = .available then
            mergeAdjacentNodes fuel (fuse pool key nextKey ((it.size + next.size) % 2 ^ 64)) key
          else pool
        | none => pool
      match pool.prev? key with
      | some (prevKey, prev) =>
        if prev.status = .available then
          mergeAdjacentNodes fuel (fuse pool prevKey key ((prev.size + it.size) % 2 ^ 64)) prevKey
        else mergeNext
      | none => mergeNext

/-- `Memory::Deallocate(addr)`; the node's status is not checked. -/
def deallocate (m : Memory) (addr : ℕ) : Memory :=
  match m.pool.find? addr with
  | none => m
  | some node =>
    let pool := m.pool.insert addr { node with status := .available }
    { m with
      pool := mergeAdjacentNodes pool.entries.length pool addr
      usedSize := (m.usedSize + 2 ^ 64 - node.size) % 2 ^ 64 }

/-- `_size - _used_size` on `uint64_t`. -/
def freeSize (m : Memory) : ℕ := (m.size + 2 ^ 64 - m.usedSize) % 2 ^ 64

end Memory
end DxRt
