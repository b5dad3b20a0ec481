import DxRt.Lib.Bytes

/-! lib/dynamic_ipc/protocol/ipc_packet.cpp: the header of a packet.

    A packet is a header and a payload, both without padding. The header carries the type of the
    message, the size of the payload, and the process that sends it. -/

namespace DxRt
open Bytes

/-- `IPCMessageType`. -/
inductive IPCMessageType where
  | AllocateBuffer | FreeBuffer | InferenceRequest | InferenceResponse | ThrottleNotification
  | ErrorNotification | DMAReadRequest | DMAReadResponse | DMAWriteRequest | DMAWriteResponse
  | TaskInitRequest | TaskInitResponse | TaskDeInitRequest | TaskDeInitResponse
  | ViewFreeMemoryRequestLegacy | ViewFreeMemoryResponseLegacy | ViewUsedMemoryRequestLegacy
  | ViewUsedMemoryResponseLegacy | GetUsageRequestLegacy | GetUsageResponseLegacy
  | GetDeviceTelemetryRequest | GetDeviceTelemetryResponse | ClientHello
  | RecoveryStartNotification | RecoveryStartAck | RecoverySuccessNotification
  | RecoveryFailNotification | DMAReadRequestWithFaultInjection
  deriving DecidableEq

namespace IPCMessageType

/-- `DXRT_IPC_MESSAGE_TYPE_LIST`. -/
def list : List (IPCMessageType × UInt32) :=
  [(AllocateBuffer, 101), (FreeBuffer, 102), (InferenceRequest, 103), (InferenceResponse, 104),
    (ThrottleNotification, 105), (ErrorNotification, 106), (DMAReadRequest, 107),
    (DMAReadResponse, 108), (DMAWriteRequest, 109), (DMAWriteResponse, 110),
    (TaskInitRequest, 111), (TaskInitResponse, 112), (TaskDeInitRequest, 113),
    (TaskDeInitResponse, 114), (ViewFreeMemoryRequestLegacy, 115),
    (ViewFreeMemoryResponseLegacy, 116), (ViewUsedMemoryRequestLegacy, 117),
    (ViewUsedMemoryResponseLegacy, 118), (GetUsageRequestLegacy, 119),
    (GetUsageResponseLegacy, 120), (GetDeviceTelemetryRequest, 121),
    (GetDeviceTelemetryResponse, 122), (ClientHello, 123), (RecoveryStartNotification, 124),
    (RecoveryStartAck, 125), (RecoverySuccessNotification, 126),
    (RecoveryFailNotification, 127), (DMAReadRequestWithFaultInjection, 199)]

/-- The type with that number; `none` where the list has no such number. -/
def ofValue (typeValue : UInt32) : Option IPCMessageType :=
  (list.find? fun entry => decide (entry.2 = typeValue)).map Prod.fst

def value : IPCMessageType → UInt32
  | t => ((list.find? fun entry => decide (entry.1 = t)).map Prod.snd).getD 0

theorem ofValue_value (t : IPCMessageType) : ofValue t.value = some t := by
  cases t <;> decide

end IPCMessageType

structure IPCPacketHeader where
  magic : UInt32
  version : UInt16
  flags : UInt16
  type : UInt32
  messageSize : UInt32
  seqId : Int32
  deviceId : Int32
  pid : Int32
  deriving DecidableEq

def kIPCPacketMagic : UInt32 := 0x44584950

def kIPCPacketWireVersion : UInt16 := 1

def kIPCMaxMessageSize : ℕ := 65536

inductive Errno where
  | EINVAL | EMSGSIZE | EPROTO | ENOSYS
  deriving DecidableEq

namespace IPCPacketHeader

def codec : Codec IPCPacketHeader :=
  (((((((Codec.uint32.prod .uint16).prod .uint16).prod .uint32).prod .uint32).prod .int32).prod
    .int32).prod .int32).map
    (fun h => (((((((h.magic, h.version), h.flags), h.type), h.messageSize), h.seqId), h.deviceId),
      h.pid))
    (fun p => ⟨p.1.1.1.1.1.1.1, p.1.1.1.1.1.1.2, p.1.1.1.1.1.2, p.1.1.1.1.2, p.1.1.1.2, p.1.1.2,
      p.1.2, p.2⟩)
    fun _ => rfl

theorem size_codec : codec.size = 28 := rfl

/-- `isValidIPCPacketHeader`. -/
def isValid (header : IPCPacketHeader) : Bool :=
  if header.magic ≠ kIPCPacketMagic then false
  else if (IPCMessageType.ofValue header.type).isNone then false
  else if header.version ≠ kIPCPacketWireVersion then false
  else if header.seqId < 0 then false
  else true

theorem isValid_iff {header : IPCPacketHeader} : header.isValid = true ↔
    header.magic = kIPCPacketMagic ∧ (IPCMessageType.ofValue header.type).isSome ∧
      header.version = kIPCPacketWireVersion ∧ 0 ≤ header.seqId := by
  rw [isValid]
  split_ifs with hmagic htype hversion hseq
  · exact iff_of_false nofun fun h => hmagic h.1
  · exact iff_of_false nofun fun h => by simp [Option.isNone_iff_eq_none.mp htype] at h
  · exact iff_of_false nofun fun h => hversion h.2.2.1
  · exact iff_of_false nofun fun h => absurd h.2.2.2 (Int32.not_le.mpr hseq)
  · refine iff_of_true rfl ⟨not_not.mp hmagic, ?_, not_not.mp hversion, Int32.not_lt.mp hseq⟩
    rwa [Bool.not_eq_true, Option.isNone_eq_false_iff] at htype

end IPCPacketHeader

/-- With the answer of `getCurrentIPCPacketPid`. -/
def initializeIPCPacketHeader (currentPid : Int32) (type : IPCMessageType) (messageSize : UInt32)
    (seqId pid : Int32) (version : UInt16) : IPCPacketHeader where
  magic := kIPCPacketMagic
  version := version
  flags := 0
  type := type.value
  messageSize := messageSize
  seqId := seqId
  deviceId := 0
  pid := if pid = 0 then currentPid else pid

end DxRt
