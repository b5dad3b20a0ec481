import DxRt.Lib.Program
import DxRt.Service.Aliases

/-! lib/device_pool/no_service_layer.cpp, lib/device_pool/service_layer.cpp: what a device asks for.

    A device task layer reaches device memory through one interface with two implementations.
    `NoServiceLayer` owns the pool of the device; its block ids come from a counter and lead to pool
    addresses through `_blockIdToAddr`. `ServiceLayer` asks the service, which may not be reached,
    and whose answer may not arrive. DMA transfers do not change who owns what: they are questions
    to the environment. -/

namespace DxRt
open Memory

inductive MemoryType where
  | normal | modelRmap | modelWeight | inputOutput | modelPpuBinary
  deriving DecidableEq

/-- The list is the same in the service. -/
def MemoryType.shouldUseBackwardAllocation : MemoryType → Bool
  | .modelWeight | .modelRmap | .modelPpuBinary => true
  | .normal | .inputOutput => false

/-- What becomes of a transfer; `same` tells whether a read has brought back what was written. -/
inductive Dma where
  | throws
  | returns (ret : ℤ) (same : Bool)
  deriving DecidableEq

/-- The calls of `ServiceLayerInterface`. A transfer is labelled with what is transferred. -/
inductive LayerCall where
  | allocateInfo (taskId : ℤ) (type : MemoryType) (size : ℕ)
  | deAllocateInfo (info : SharedMemoryInfo)
  | dmaWrite (type : MemoryType) (info : SharedMemoryInfo)
  | dmaRead (type : MemoryType) (info : SharedMemoryInfo)

abbrev LayerCall.Ans : LayerCall → Type
  | .allocateInfo .. => SharedMemoryInfo
  | .deAllocateInfo _ => Unit
  | .dmaWrite .. | .dmaRead .. => Dma

/-- What the environment decides at one call: the system calls of the service, whether the request
    is `delivered`, whether its answer arrives and is mapped at `ptr` under the descriptor `fd`, and
    the transfer. -/
structure Surroundings where
  os : Syscalls
  delivered : Bool
  answered : Bool
  fd : ℤ
  ptr : ℕ
  dma : Dma

/-! ### Without a service -/

/-- The pool of the device and the block ids handed out. -/
structure NoServiceLayer where
  mem : Memory
  nextNoServiceBlockId : ℕ
  blockIdToAddr : SortedMap ℕ ℕ

namespace NoServiceLayer
open HandleTable

/-- The pool operation of `AllocateInfo`. -/
def poolAllocate (mem : Memory) (type : MemoryType) (size : ℕ) : Memory × ℕ :=
  if type.shouldUseBackwardAllocation then mem.backwardAllocate size else mem.allocate size

/-- `AllocateInfo`; the block id is new also when the pool has answered -1. -/
def allocateInfo (s : NoServiceLayer) (type : MemoryType) (size : ℕ) :
    NoServiceLayer × SharedMemoryInfo :=
  let (mem, addr) := poolAllocate s.mem type size
  let blockId := s.nextNoServiceBlockId
  (⟨mem, blockId + 1, s.blockIdToAddr.insert blockId addr⟩, ⟨blockId, size, 0, 0, addr, -1⟩)

/-- The address that `DeAllocateInfo` finds: under the block id, or else in the information. -/
def addrOf (s : NoServiceLayer) (info : SharedMemoryInfo) : ℕ :=
  if info.blockId ≠ 0 then (s.blockIdToAddr.find? (toUint64 info.blockId)).getD info.physAddr
  else info.physAddr

/-- `DeAllocateInfo`; neither -1 nor the address 0 is passed to the pool. -/
def deAllocateInfo (s : NoServiceLayer) (info : SharedMemoryInfo) : NoServiceLayer where
  mem := if s.addrOf info ≠ NEG1 ∧ s.addrOf info ≠ 0 then s.mem.deallocate (s.addrOf info)
    else s.mem
  nextNoServiceBlockId := s.nextNoServiceBlockId
  blockIdToAddr :=
    if info.blockId ≠ 0 then s.blockIdToAddr.erase (toUint64 info.blockId) else s.blockIdToAddr

def component : Component LayerCall LayerCall.Ans NoServiceLayer Surroundings where
  step s c w :=
    match c with
    | .allocateInfo _ type size => s.allocateInfo type size
    | .deAllocateInfo info => (s.deAllocateInfo info, ())
    | .dmaWrite .. => (s, w.dma)
    | .dmaRead .. => (s, w.dma)

end NoServiceLayer

/-! ### With a service -/

namespace ServiceLayer
variable {p : Policy} {n : ℕ}
open HandleTable

/-- `ServiceLayerDynamicIpcAllocateInfo` for the process `pid`: the service has granted the block
    also when the answer is lost or cannot be mapped. The size goes over in 32 bits. -/
def allocateInfo (pid : ℤ) (d : Fin n) (s : ShmService p n) (taskId : ℤ) (type : MemoryType)
    (size : ℕ) (w : Surroundings) : ShmService p n × SharedMemoryInfo :=
  if w.delivered = false then (s, Service.invalidInfo (-1))
  else
    let (s, info) := s.handleAllocate pid d taskId (size % 2 ^ 32) type.shouldUseBackwardAllocation
      w.os
    if info.physAddr = NEG1 ∨ w.answered = false then (s, Service.invalidInfo (-1))
    else (s, ⟨info.blockId, info.size, w.ptr, 0, info.physAddrOffset, w.fd⟩)

/-- The number that stands for the block in the request. -/
def keyOf (info : SharedMemoryInfo) : ℕ :=
  if info.blockId ≠ 0 then toUint64 info.blockId else info.physAddr

/-- `ServiceLayerDynamicIpcDeallocateInfo`; the result is ignored. -/
def deAllocateInfo (pid : ℤ) (d : Fin n) (s : ShmService p n) (info : SharedMemoryInfo)
    (w : Surroundings) : ShmService p n :=
  if w.delivered = false then s else (s.handleDeallocate pid d (keyOf info)).1

def component (p : Policy) (pid : ℤ) (d : Fin n) :
    Component LayerCall LayerCall.Ans (ShmService p n) Surroundings where
  step s c w :=
    match c with
    | .allocateInfo taskId type size => allocateInfo pid d s taskId type size w
    | .deAllocateInfo info => (deAllocateInfo pid d s info w, ())
    | .dmaWrite .. => (s, w.dma)
    | .dmaRead .. => (s, w.dma)

end ServiceLayer
end DxRt
