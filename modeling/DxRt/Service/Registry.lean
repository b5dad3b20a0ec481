import DxRt.Service.Cleanup
import DxRt.Service.Packet

/-! lib/dynamic_ipc/protocol/ipc_packet_handler_registry.cpp: a received message and its handler.

    A message goes through checks of its size, its header and its payload, and between the second and
    the third the client is bound to the process that the header names. What passes all checks goes
    to the handler of its type. A rejected message costs its client the connection. -/

namespace DxRt
open Bytes

/-- The request packets of `DXRT_IPC_REQUEST_HANDLER_LIST`, which are packed: the sizes of the fields
    behind the header. -/
def requestPayloadSize : IPCMessageType → Option ℕ
  | .AllocateBuffer => some (8 + 4 + 4)
  | .FreeBuffer => some 8
  | .InferenceRequest => some (4 + 120)
  | .DMAReadRequest => some (8 + 8 + 8)
  | .DMAReadRequestWithFaultInjection => some (8 + 8 + 8)
  | .DMAWriteRequest => some (8 + 8 + 8)
  | .TaskInitRequest => some (4 + 4 + 8 + 1 + 1 + 9 * 4 + 3 * 4 + 8)
  | .TaskDeInitRequest => some (4 + 4)
  | .ViewFreeMemoryRequestLegacy => some 0
  | .ViewUsedMemoryRequestLegacy => some 0
  | .GetUsageRequestLegacy => some 4
  | .GetDeviceTelemetryRequest => some 0
  | .RecoveryStartAck => some (4 + 4)
  | _ => none

/-- A packet of a request: the header, and behind it as many bytes as the fields of its type have. -/
structure RequestPacket where
  type : IPCMessageType
  header : IPCPacketHeader
  payload : List UInt8
  size_eq : requestPayloadSize type = some payload.length

inductive Call where
  /-- `_onClientConnectedPid`. -/
  | connected (pid : Int32)
  /-- The handler of the type of the packet. -/
  | request (clientFd : ℤ) (packet : RequestPacket)

structure IPCPacketHandlerRegistry where
  server : Option IPCServerEndpoint
  /-- What the handler of a type answers, where one is set. -/
  handlers : IPCMessageType → Option (ℤ → RequestPacket → Int32)
  /-- `_onClientConnectedPid` is set. -/
  onClientConnectedPid : Bool

/-- After `handle`: the endpoint, the calls made, and `-1` with its `errno` or the answer. -/
structure Handled where
  server : Option IPCServerEndpoint
  calls : List Call
  rc : Except Errno Int32

namespace IPCServerEndpoint

def getPidForClient (s : IPCServerEndpoint) (clientFd : ℤ) : ℤ :=
  (s.pidByClientFd.find? clientFd).getD 0

/-- The client and the process are bound to each other. -/
def Paired (s : IPCServerEndpoint) (pid clientFd : ℤ) : Prop :=
  s.pidByClientFd.find? clientFd = some pid ∧ s.clientFdByPid.find? pid = some clientFd

/-- The bindings in both directions are the same. -/
def SameBindings (s t : IPCServerEndpoint) : Prop :=
  (∀ clientFd, t.pidByClientFd.find? clientFd = s.pidByClientFd.find? clientFd) ∧
    ∀ pid, t.clientFdByPid.find? pid = s.clientFdByPid.find? pid

end IPCServerEndpoint

namespace IPCPacketHandlerRegistry
open IPCServerEndpoint

def parseRequestPacket (type : IPCMessageType) (header : IPCPacketHeader) (payload : List UInt8) :
    Except Errno RequestPacket :=
  if h : requestPayloadSize type = some payload.length then .ok ⟨type, header, payload, h⟩
  else .error .EMSGSIZE

/-- The `switch` over the type. -/
def dispatch (r : IPCPacketHandlerRegistry) (clientFd : ℤ) (header : IPCPacketHeader)
    (payload : List UInt8) : List Call × Except Errno Int32 :=
  match IPCMessageType.ofValue header.type with
  | none => ([], .error .ENOSYS)
  | some type =>
    if type = .ClientHello then ([], .ok 0)
    else if (requestPayloadSize type).isNone then ([], .error .ENOSYS)
    else
      match r.handlers type with
      | none => ([], .error .ENOSYS)
      | some handler =>
        match parseRequestPacket type header payload with
        | .error e => ([], .error e)
        | .ok packet => ([.request clientFd packet], .ok (handler clientFd packet))

/-- `handle` behind the check of the header. -/
def handlePacket (r : IPCPacketHandlerRegistry) (clientFd : ℤ) (header : IPCPacketHeader)
    (payload : List UInt8) : Handled :=
  let registered := r.server.any fun s => decide (s.getPidForClient clientFd = 0)
  let server := r.server.map fun s => s.bindPidToClient header.pid.toInt clientFd
  let calls := if registered && r.onClientConnectedPid then [.connected header.pid] else []
  if header.messageSize.toNat ≠ payload.length then ⟨server, calls, .error .EMSGSIZE⟩
  else
    let (called, rc) := r.dispatch clientFd header payload
    ⟨server, calls ++ called, rc⟩

/-- A null message is `none`. -/
def handle (r : IPCPacketHandlerRegistry) (clientFd : ℤ) : Option (List UInt8) → Handled
  | none => ⟨r.server, [], .error .EINVAL⟩
  | some message =>
    if message.length < IPCPacketHeader.codec.size then ⟨r.server, [], .error .EMSGSIZE⟩
    else
      let header := IPCPacketHeader.codec.decode (message.take IPCPacketHeader.codec.size)
      if header.isValid = false then ⟨r.server, [], .error .EPROTO⟩
      else r.handlePacket clientFd header (message.drop IPCPacketHeader.codec.size)

/-- `processReceivedClientMessage` of the endpoint: what is left of it, and the process that is
    cleaned up. -/
def processReceivedClientMessage (r : IPCPacketHandlerRegistry) (clientFd : ℤ)
    (message : List UInt8) : Option IPCServerEndpoint × Option ℤ :=
  if r.server.any fun s => s.clients.contains clientFd then
    let handled := r.handle clientFd message
    let failed : Bool := match handled.rc with
      | .ok rc => decide (rc < 0)
      | .error _ => true
    if failed then
      (handled.server.map (·.removeClient clientFd), handled.server.bind (·.cleanedUp clientFd))
    else (handled.server, none)
  else (r.server, none)

/-! ### What a rejected message may not do -/

/-- No handler was called, and every client has the process it had. -/
def NoEffect (r : IPCPacketHandlerRegistry) (handled : Handled) : Prop :=
  handled.calls = [] ∧ ∀ s ∈ r.server, ∃ t ∈ handled.server, s.SameBindings t

/-- The message has a valid header and this payload. -/
structure Splits (message : Option (List UInt8)) (header : IPCPacketHeader)
    (payload : List UInt8) : Prop where
  bytes : ∃ bytes ∈ message, IPCPacketHeader.codec.size ≤ bytes.length ∧
    header = IPCPacketHeader.codec.decode (bytes.take IPCPacketHeader.codec.size) ∧
    payload = bytes.drop IPCPacketHeader.codec.size
  valid : header.isValid = true

/-- A hello, or a request that has a handler and a payload of its size. -/
def Serves (r : IPCPacketHandlerRegistry) (header : IPCPacketHeader) (payload : List UInt8) : Prop :=
  ∃ type ∈ IPCMessageType.ofValue header.type, type = .ClientHello ∨
    requestPayloadSize type = some payload.length ∧ (r.handlers type).isSome

/-- The checks behind the binding. -/
structure Accepts (r : IPCPacketHandlerRegistry) (header : IPCPacketHeader)
    (payload : List UInt8) : Prop where
  size : header.messageSize.toNat = payload.length
  serves : r.Serves header payload

/-- To bind the client to the process changes nothing, and no one is told of a new client. -/
def Known (r : IPCPacketHandlerRegistry) (clientFd pid : ℤ) : Prop :=
  ∀ s ∈ r.server, (pid ≤ 0 ∨ clientFd < 0 ∨ s.Paired pid clientFd) ∧
    (r.onClientConnectedPid = true → s.getPidForClient clientFd ≠ 0)

variable {r : IPCPacketHandlerRegistry} {s : IPCServerEndpoint} {clientFd pid : ℤ}
  {message : Option (List UInt8)} {header : IPCPacketHeader} {payload : List UInt8} {e : Errno}

/-! ### The binding -/

theorem sameBindings_bindPidToClient : s.SameBindings (s.bindPidToClient pid clientFd) ↔
    pid ≤ 0 ∨ clientFd < 0 ∨ s.Paired pid clientFd := by
  rw [bindPidToClient, ← or_assoc]
  split_ifs with hvalid
  · exact iff_of_true ⟨fun _ => rfl, fun _ => rfl⟩ (Or.inl hvalid)
  · rw [or_iff_right hvalid]
    constructor
    · rintro ⟨hpid, hfd⟩
      have hclient := hpid clientFd
      have hprocess := hfd pid
      rw [SortedMap.find?_insert, if_pos rfl] at hclient hprocess
      exact ⟨hclient.symm, hprocess.symm⟩
    · rintro ⟨hclient, hprocess⟩
      have herase : eraseOther s.pidByClientFd (s.clientFdByPid.find? pid) clientFd =
          s.pidByClientFd := by simp [eraseOther, hprocess]
      have herase' : eraseOther s.clientFdByPid (s.pidByClientFd.find? clientFd) pid =
          s.clientFdByPid := by simp [eraseOther, hclient]
      simp only [SameBindings, herase, herase', SortedMap.find?_insert]
      refine ⟨fun fd => ?_, fun p => ?_⟩
      · split_ifs with h
        · rw [h, hclient]
        · rfl
      · split_ifs with h
        · rw [h, hprocess]
        · rfl

/-! ### The checks behind it -/

/-- What the `switch` rejects calls no handler. -/
theorem dispatch_cases (r : IPCPacketHandlerRegistry) (clientFd : ℤ) (header : IPCPacketHeader)
    (payload : List UInt8) :
    r.Serves header payload ∧ (∃ calls rc, r.dispatch clientFd header payload = (calls, .ok rc)) ∨
      ¬ r.Serves header payload ∧ ∃ e, r.dispatch clientFd header payload = ([], .error e) := by
  rw [dispatch, Serves]
  cases htype : IPCMessageType.ofValue header.type with
  | none => exact Or.inr ⟨by simp, _, rfl⟩
  | some type =>
    simp only [Option.mem_def, Option.some.injEq, exists_eq_left']
    by_cases hhello : type = .ClientHello
    · exact Or.inl ⟨Or.inl hhello, [], 0, if_pos hhello⟩
    · rw [if_neg hhello]
      by_cases hother : (requestPayloadSize type).isNone = true
      · rw [if_pos hother]
        exact Or.inr ⟨by simp [hhello, Option.isNone_iff_eq_none.mp hother], _, rfl⟩
      · rw [if_neg hother]
        cases hhandler : r.handlers type with
        | none => exact Or.inr ⟨by simp [hhello], _, rfl⟩
        | some handler =>
          by_cases hsize : requestPayloadSize type = some payload.length
          · exact Or.inl ⟨Or.inr ⟨hsize, rfl⟩, by simp [parseRequestPacket, hsize]⟩
          · exact Or.inr ⟨by simp [hhello, hsize], by simp [parseRequestPacket, hsize]⟩

theorem handlePacket_rejects_iff :
    (∃ e, (r.handlePacket clientFd header payload).rc = .error e) ↔ ¬ r.Accepts header payload := by
  rw [handlePacket]
  by_cases hsize : header.messageSize.toNat ≠ payload.length
  · rw [if_pos hsize]
    exact iff_of_true ⟨_, rfl⟩ fun h => hsize h.size
  · rw [if_neg hsize]
    rcases dispatch_cases r clientFd header payload with ⟨hserves, calls, rc, heq⟩ | ⟨hnot, e, heq⟩
    · rw [heq]
      exact iff_of_false nofun (not_not.mpr ⟨not_not.mp hsize, hserves⟩)
    · rw [heq]
      exact iff_of_true ⟨e, rfl⟩ fun h => hnot h.serves

/-- A message that is rejected behind the binding. -/
theorem handlePacket_rejected (h : (r.handlePacket clientFd header payload).rc = .error e) :
    r.NoEffect (r.handlePacket clientFd header payload) ↔ r.Known clientFd header.pid.toInt := by
  have hserver : (r.handlePacket clientFd header payload).server =
      r.server.map fun s => s.bindPidToClient header.pid.toInt clientFd := by
    rw [handlePacket]
    by_cases hsize : header.messageSize.toNat ≠ payload.length
    · rw [if_pos hsize]
    · rw [if_neg hsize]
  have hcalls : (r.handlePacket clientFd header payload).calls =
      if (r.server.any fun s => decide (s.getPidForClient clientFd = 0)) && r.onClientConnectedPid
      then [.connected header.pid] else [] := by
    rw [handlePacket] at h ⊢
    by_cases hsize : header.messageSize.toNat ≠ payload.length
    · rw [if_pos hsize]
    · rw [if_neg hsize] at h ⊢
      rcases dispatch_cases r clientFd header payload with ⟨-, calls, rc, heq⟩ | ⟨-, e', heq⟩
      · rw [heq] at h
        cases h
      · rw [heq]
        exact List.append_nil _
  rw [NoEffect, hserver, hcalls, Known]
  cases r.server with
  | none => simp
  | some s =>
    simp only [Option.map_some, Option.mem_def, Option.some.injEq, forall_eq', exists_eq_left',
      sameBindings_bindPidToClient, Option.any_some]
    rw [and_comm]
    refine and_congr_right fun _ => ?_
    cases r.onClientConnectedPid <;> simp

/-! ### Rejected messages -/

/-- A rejected message has no effect if and only if it does not get past the check of its header, or
    is accepted after all, or the binding between the checks changes nothing. -/
theorem rejected_without_effect_iff :
    (∀ e, (r.handle clientFd message).rc = .error e → r.NoEffect (r.handle clientFd message)) ↔
      ∀ header payload, Splits message header payload →
        r.Accepts header payload ∨ r.Known clientFd header.pid.toInt := by
  have hsame (s : IPCServerEndpoint) : s.SameBindings s := ⟨fun _ => rfl, fun _ => rfl⟩
  have hearly (e : Errno) : r.NoEffect ⟨r.server, [], .error e⟩ := ⟨rfl, fun s hs => ⟨s, hs, hsame s⟩⟩
  cases message with
  | none =>
    refine iff_of_true (fun _ _ => hearly _) fun header payload h => ?_
    obtain ⟨bytes, hmem, -⟩ := h.bytes
    cases hmem
  | some message =>
    simp only [handle]
    split_ifs with hshort hvalid
    · refine iff_of_true (fun _ _ => hearly _) fun header payload h => ?_
      obtain ⟨bytes, ⟨⟩, hlong, -⟩ := h.bytes
      exact absurd hshort (not_lt.mpr hlong)
    · refine iff_of_true (fun _ _ => hearly _) fun header payload h => ?_
      obtain ⟨bytes, ⟨⟩, -, rfl, -⟩ := h.bytes
      rw [h.valid] at hvalid
      cases hvalid
    · have hsplits : Splits (some message)
          (IPCPacketHeader.codec.decode (message.take IPCPacketHeader.codec.size))
          (message.drop IPCPacketHeader.codec.size) :=
        ⟨⟨message, rfl, not_lt.mp hshort, rfl, rfl⟩, by simpa using hvalid⟩
      constructor
      · rintro h header payload ⟨⟨bytes, ⟨⟩, -, rfl, rfl⟩, -⟩
        refine or_iff_not_imp_left.mpr fun hrejected => ?_
        obtain ⟨e, he⟩ := handlePacket_rejects_iff.mpr hrejected
        exact (handlePacket_rejected he).mp (h e he)
      · intro h e he
        refine (handlePacket_rejected he).mpr ((h _ _ hsplits).resolve_left ?_)
        exact handlePacket_rejects_iff.mp ⟨e, he⟩

/-- Two clients, of which the first is bound to the process 7; no handlers are set. -/
def boundClient : IPCServerEndpoint :=
  ((IPCServerEndpoint.init.acceptNewClient.getD init).acceptNewClient.getD init).bindPidToClient 7 1

def withoutHandlers : IPCPacketHandlerRegistry := ⟨some boundClient, fun _ => none, false⟩

/-- A hello in the name of the process 7, whose header promises a byte that does not follow. -/
def takeover : List UInt8 :=
  IPCPacketHeader.codec.encode
    ⟨kIPCPacketMagic, kIPCPacketWireVersion, 0, IPCMessageType.ClientHello.value, 1, 0, 0, 7⟩

/-- Client 2 sends it. The message is rejected, but from then on what is sent to the process goes to
    client 2. When client 2 is dropped for it, the process is cleaned up, and cannot be reached. -/
theorem takeover_rejected :
    IPCServerEndpoint.Reachable boundClient ∧ boundClient.sendToPid 7 = some 0 ∧
    (withoutHandlers.handle 2 (some takeover)).rc = .error .EMSGSIZE ∧
    ¬ withoutHandlers.NoEffect (withoutHandlers.handle 2 (some takeover)) ∧
    (withoutHandlers.handle 2 (some takeover)).server.bind (·.sendToPid 7) = some 1 ∧
    (withoutHandlers.processReceivedClientMessage 2 takeover).2 = some 7 ∧
    (withoutHandlers.processReceivedClientMessage 2 takeover).1.bind (·.sendToPid 7) = none := by
  have hrun : IPCServerEndpoint.Reachable boundClient :=
    .tail (.tail (.tail .refl (.acceptNewClient rfl)) (.acceptNewClient rfl))
      (.bindPidToClient 7 1 (by decide))
  refine ⟨hrun, by decide, by decide +kernel, ?_, by decide +kernel, by decide +kernel,
    by decide +kernel⟩
  rintro ⟨-, hsame⟩
  obtain ⟨t, ht, hbindings⟩ := hsame boundClient rfl
  have hafter : (withoutHandlers.handle 2 (some takeover)).server.bind
      (fun t => t.clientFdByPid.find? 7) = some 2 := by decide +kernel
  rw [Option.mem_def.mp ht, Option.bind_some, hbindings.2 7] at hafter
  exact absurd hafter (by decide)

end IPCPacketHandlerRegistry
end DxRt
