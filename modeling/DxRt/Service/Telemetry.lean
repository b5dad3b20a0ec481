import DxRt.Service.Packet

/-! lib/dynamic_ipc/protocol/ipc_packet.cpp: device telemetry as a message.

    The message is a packet of fixed size, with the number of cores, and behind it a column for each
    of the four values of a core. Three lengths say the same: the size of the message, the size in
    the header, and the number of cores. Sizes are computed in `size_t`, which is large enough for
    every 32-bit number of cores. -/

namespace DxRt
open Bytes

structure IPCDeviceTelemetryCoreData where
  utilizationPermille : UInt32
  temperature : Int32
  clock : UInt32
  voltage : UInt32
  deriving DecidableEq

structure IPCDeviceTelemetryPayload where
  result : Int32
  usedMemoryBytes : UInt64
  freeMemoryBytes : UInt64
  cores : List IPCDeviceTelemetryCoreData
  deriving DecidableEq

structure IPCPacketGetDeviceTelemetryResponse where
  header : IPCPacketHeader
  result : Int32
  coreCount : UInt32
  usedMemoryBytes : UInt64
  freeMemoryBytes : UInt64

namespace IPCPacketGetDeviceTelemetryResponse

def codec : Codec IPCPacketGetDeviceTelemetryResponse :=
  ((((IPCPacketHeader.codec.prod .int32).prod .uint32).prod .uint64).prod .uint64).map
    (fun p => ((((p.header, p.result), p.coreCount), p.usedMemoryBytes), p.freeMemoryBytes))
    (fun p => ⟨p.1.1.1.1, p.1.1.1.2, p.1.1.2, p.1.2, p.2⟩) fun _ => rfl

theorem size_codec : codec.size = 52 := rfl

end IPCPacketGetDeviceTelemetryResponse

namespace Telemetry
open IPCPacketGetDeviceTelemetryResponse

/-! ### Writing -/

/-- The size of a message with that many cores. -/
def serializedSize (coreCount : ℕ) : ℕ :=
  codec.size + Codec.uint32.size * coreCount + Codec.int32.size * coreCount +
    Codec.uint32.size * coreCount + Codec.uint32.size * coreCount

def getSerializedIPCDeviceTelemetryResponseSize (telemetry : IPCDeviceTelemetryPayload) : ℕ :=
  serializedSize telemetry.cores.length

/-- The packet in front of the columns. -/
def responsePacket (currentPid : Int32) (requestHeader : IPCPacketHeader)
    (telemetry : IPCDeviceTelemetryPayload) : IPCPacketGetDeviceTelemetryResponse where
  header := { initializeIPCPacketHeader currentPid .GetDeviceTelemetryResponse
      (UInt32.ofNat (getSerializedIPCDeviceTelemetryResponseSize telemetry -
        IPCPacketHeader.codec.size))
      requestHeader.seqId requestHeader.pid kIPCPacketWireVersion with
    deviceId := requestHeader.deviceId }
  result := telemetry.result
  coreCount := UInt32.ofNat telemetry.cores.length
  usedMemoryBytes := telemetry.usedMemoryBytes
  freeMemoryBytes := telemetry.freeMemoryBytes

/-- The four columns, each from where the cursor is. -/
def writeColumns (buffer : List UInt8) (cursor : ℕ) (cores : List IPCDeviceTelemetryCoreData) :
    List UInt8 :=
  let (buffer, cursor) := writeAll .uint32 buffer cursor (cores.map (·.utilizationPermille))
  let (buffer, cursor) := writeAll .int32 buffer cursor (cores.map (·.temperature))
  let (buffer, cursor) := writeAll .uint32 buffer cursor (cores.map (·.clock))
  (writeAll .uint32 buffer cursor (cores.map (·.voltage))).1

/-- With the answer of `getCurrentIPCPacketPid`; the response is not null. -/
def serializeIPCDeviceTelemetryResponsePacket (currentPid : Int32)
    (requestHeader : IPCPacketHeader) (telemetry : IPCDeviceTelemetryPayload) : Except Errno (List UInt8) :=
  let totalSize := getSerializedIPCDeviceTelemetryResponseSize telemetry
  if kIPCMaxMessageSize < totalSize then .error .EMSGSIZE
  else
    let response := List.replicate totalSize 0
    let response :=
      write response 0 (codec.encode (responsePacket currentPid requestHeader telemetry))
    .ok (writeColumns response codec.size telemetry.cores)

/-! ### Reading -/

/-- What is left in the two results: the header as soon as it is read, and the payload. -/
structure Decoded where
  header : Option IPCPacketHeader
  telemetry : Except Errno IPCDeviceTelemetryPayload

/-- `telemetry->cores[index].field = value`, for each index. -/
def setColumn {α : Type} (set : IPCDeviceTelemetryCoreData → α → IPCDeviceTelemetryCoreData)
    (cores : List IPCDeviceTelemetryCoreData) (column : List α) :
    List IPCDeviceTelemetryCoreData :=
  List.zipWith set cores column

/-- The four columns, each from where the cursor is. -/
def readColumns (message : List UInt8) (cursor coreCount : ℕ) :
    Reads (List IPCDeviceTelemetryCoreData) := do
  let cores := List.replicate coreCount ⟨0, 0, 0, 0⟩
  let (column, cursor) ← fetchAll .uint32 message cursor coreCount
  let cores := setColumn (fun core x => { core with utilizationPermille := x }) cores column
  let (column, cursor) ← fetchAll .int32 message cursor coreCount
  let cores := setColumn (fun core x => { core with temperature := x }) cores column
  let (column, cursor) ← fetchAll .uint32 message cursor coreCount
  let cores := setColumn (fun core x => { core with clock := x }) cores column
  let (column, _) ← fetchAll .uint32 message cursor coreCount
  pure (setColumn (fun core x => { core with voltage := x }) cores column)

/-- The pointers are not null. -/
def deserializeIPCDeviceTelemetryResponsePacket (message : List UInt8) : Reads Decoded := do
  if message.length < codec.size then pure ⟨none, .error .EMSGSIZE⟩
  else
    let packet ← fetch codec message 0
    if packet.header.isValid = false then pure ⟨some packet.header, .error .EPROTO⟩
    else if packet.header.type ≠ IPCMessageType.GetDeviceTelemetryResponse.value then
      pure ⟨some packet.header, .error .EPROTO⟩
    else
      let expectedSize := serializedSize packet.coreCount.toNat
      if message.length ≠ expectedSize then pure ⟨some packet.header, .error .EMSGSIZE⟩
      else if packet.header.messageSize.toNat ≠ expectedSize - IPCPacketHeader.codec.size then
        pure ⟨some packet.header, .error .EMSGSIZE⟩
      else
        let cores ← readColumns message codec.size packet.coreCount.toNat
        pure ⟨some packet.header,
          .ok ⟨packet.result, packet.usedMemoryBytes, packet.freeMemoryBytes, cores⟩⟩

/-! ### There and back -/

variable {cores : List IPCDeviceTelemetryCoreData} {currentPid : Int32}
  {requestHeader : IPCPacketHeader} {telemetry : IPCDeviceTelemetryPayload} {message : List UInt8}

/-- The columns one after the other. -/
def columns (cores : List IPCDeviceTelemetryCoreData) : List UInt8 :=
  (cores.map (·.utilizationPermille)).flatMap Codec.uint32.encode ++
    ((cores.map (·.temperature)).flatMap Codec.int32.encode ++
      ((cores.map (·.clock)).flatMap Codec.uint32.encode ++
        (cores.map (·.voltage)).flatMap Codec.uint32.encode))

theorem length_flatMap_encode {α : Type} (c : Codec α) (l : List α) :
    (l.flatMap c.encode).length = c.size * l.length := by
  induction l with
  | nil => rfl
  | cons a l ih =>
    rw [List.flatMap_cons, List.length_append, c.length_encode, ih, List.length_cons,
      Nat.mul_succ, Nat.add_comm]

/-- The place for the columns is filled with them. -/
theorem writeColumns_append {before o₁ o₂ o₃ o₄ : List UInt8} (h₁ : o₁.length = 4 * cores.length)
    (h₂ : o₂.length = 4 * cores.length) (h₃ : o₃.length = 4 * cores.length)
    (h₄ : o₄.length = 4 * cores.length) :
    writeColumns (before ++ (o₁ ++ (o₂ ++ (o₃ ++ o₄)))) before.length cores =
      before ++ columns cores := by
  have hnext : ∀ {α : Type} (c : Codec α) (f : IPCDeviceTelemetryCoreData → α)
      (before old after : List UInt8), c.size = 4 → old.length = 4 * cores.length →
      writeAll c (before ++ (old ++ after)) before.length (cores.map f) =
        (before ++ (cores.map f).flatMap c.encode ++ after,
          (before ++ (cores.map f).flatMap c.encode).length) := by
    intro α c f before old after hsize hold
    rw [← List.append_assoc, writeAll_append c (cores.map f) (by rw [List.length_map, hsize, hold]),
      List.length_append, length_flatMap_encode]
  rw [writeColumns, hnext .uint32 _ before o₁ _ rfl h₁]
  dsimp only
  rw [hnext .int32 _ _ o₂ _ rfl h₂]
  dsimp only
  rw [hnext .uint32 _ _ o₃ _ rfl h₃]
  dsimp only
  rw [← List.append_nil o₄, hnext .uint32 _ _ o₄ _ rfl h₄]
  simp only [columns, List.append_assoc, List.append_nil]

theorem serializedSize_eq (n : ℕ) : serializedSize n = 52 + 16 * n := by
  rw [serializedSize, size_codec]
  change 52 + 4 * n + 4 * n + 4 * n + 4 * n = _
  omega

/-- A packet of fixed size in front of the columns. -/
theorem writeColumns_packet {packet : List UInt8} (hlen : packet.length = 52) :
    writeColumns (write (List.replicate (52 + 16 * cores.length) 0) 0 packet) 52 cores =
      packet ++ columns cores := by
  have hsplit : List.replicate (52 + 16 * cores.length) (0 : UInt8) =
      [] ++ List.replicate 52 0 ++ (List.replicate (4 * cores.length) 0 ++
        (List.replicate (4 * cores.length) 0 ++ (List.replicate (4 * cores.length) 0 ++
          List.replicate (4 * cores.length) 0))) := by
    rw [List.nil_append, List.replicate_append_replicate, List.replicate_append_replicate,
      List.replicate_append_replicate, List.replicate_append_replicate]
    congr 1
    omega
  have hplace : (List.replicate 52 (0 : UInt8)).length = packet.length := by
    rw [List.length_replicate, hlen]
  have hwrite := write_append [] (List.replicate (4 * cores.length) 0 ++
    (List.replicate (4 * cores.length) 0 ++ (List.replicate (4 * cores.length) 0 ++
      List.replicate (4 * cores.length) 0))) hplace
  rw [List.length_nil, List.nil_append packet] at hwrite
  rw [hsplit, hwrite, ← hlen]
  exact writeColumns_append List.length_replicate List.length_replicate List.length_replicate
    List.length_replicate

theorem length_packet (packet : IPCPacketGetDeviceTelemetryResponse) :
    (codec.encode packet).length = 52 :=
  (codec.length_encode packet).trans size_codec

theorem serialize_eq (hfits : 52 + 16 * telemetry.cores.length ≤ kIPCMaxMessageSize) :
    serializeIPCDeviceTelemetryResponsePacket currentPid requestHeader telemetry =
      .ok (codec.encode (responsePacket currentPid requestHeader telemetry) ++
        columns telemetry.cores) := by
  have hsize : getSerializedIPCDeviceTelemetryResponseSize telemetry =
      52 + 16 * telemetry.cores.length := serializedSize_eq telemetry.cores.length
  simp only [serializeIPCDeviceTelemetryResponsePacket, hsize, if_neg (not_lt.mpr hfits),
    size_codec, writeColumns_packet (length_packet _)]

/-- A column is read back, and the cursor is at the next one. -/
theorem result_column {α : Type} (c : Codec α) (f : IPCDeviceTelemetryCoreData → α)
    {before after : List UInt8}
    (hmessage : message = before ++ ((cores.map f).flatMap c.encode ++ after)) :
    (fetchAll c message before.length cores.length).result =
      some (cores.map f, (before ++ (cores.map f).flatMap c.encode).length) := by
  have hread := result_fetchAll c (cores.map f) before after
  rw [List.length_map, List.append_assoc, ← hmessage] at hread
  rw [hread, List.length_append, length_flatMap_encode, List.length_map]

theorem setColumn_map {α : Type} (set : IPCDeviceTelemetryCoreData → α → IPCDeviceTelemetryCoreData)
    (g : IPCDeviceTelemetryCoreData → IPCDeviceTelemetryCoreData)
    (f : IPCDeviceTelemetryCoreData → α) :
    setColumn set (cores.map g) (cores.map f) = cores.map fun core => set (g core) (f core) := by
  rw [setColumn, List.zipWith_map, List.zipWith_self]

theorem result_readColumns {before : List UInt8} (hmessage : message = before ++ columns cores) :
    (readColumns message before.length cores.length).result = some cores := by
  rw [columns] at hmessage
  have h₁ := result_column .uint32 (·.utilizationPermille) hmessage
  rw [← List.append_assoc before] at hmessage
  have h₂ := result_column .int32 (·.temperature) hmessage
  rw [← List.append_assoc (before ++ _)] at hmessage
  have h₃ := result_column .uint32 (·.clock) hmessage
  rw [← List.append_assoc (before ++ _ ++ _),
    ← List.append_nil (List.flatMap _ (List.map (·.voltage) cores))] at hmessage
  have h₄ := result_column .uint32 (·.voltage) hmessage
  have hnew : List.replicate cores.length (⟨0, 0, 0, 0⟩ : IPCDeviceTelemetryCoreData) =
      cores.map fun _ => ⟨0, 0, 0, 0⟩ := (List.map_const' ..).symm
  simp only [readColumns, Reads.result_bind, h₁, h₂, h₃, h₄, Option.bind_some, Reads.result_pure,
    hnew, setColumn_map, List.map_id']

/-- The columns end where the size says. -/
theorem readColumns_spec (message : List UInt8) {cursor coreCount size : ℕ}
    (h : cursor + 16 * coreCount ≤ size) :
    (readColumns message cursor coreCount).Inside size ∧
      (readColumns message cursor coreCount).result.isSome := by
  have hsize : Codec.uint32.size = 4 ∧ Codec.int32.size = 4 := ⟨rfl, rfl⟩
  obtain ⟨l₁, h₁⟩ := isSome_fetchAll .uint32 message cursor coreCount
  obtain ⟨l₂, h₂⟩ := isSome_fetchAll .int32 message (cursor + Codec.uint32.size * coreCount) coreCount
  obtain ⟨l₃, h₃⟩ := isSome_fetchAll .uint32 message
    (cursor + Codec.uint32.size * coreCount + Codec.int32.size * coreCount) coreCount
  obtain ⟨l₄, h₄⟩ := isSome_fetchAll .uint32 message
    (cursor + Codec.uint32.size * coreCount + Codec.int32.size * coreCount +
      Codec.uint32.size * coreCount) coreCount
  constructor
  · simp only [readColumns, Reads.inside_bind, h₁, h₂, h₃, Option.some.injEq, forall_eq',
      Reads.inside_pure, implies_true, and_true]
    refine ⟨inside_fetchAll ?_, inside_fetchAll ?_, inside_fetchAll ?_, inside_fetchAll ?_⟩ <;>
      rw [hsize.1] <;> try rw [hsize.2]
    all_goals omega
  · simp only [readColumns, Reads.result_bind, h₁, h₂, h₃, h₄, Option.bind_some,
      Reads.result_pure, Option.isSome_some]

/-- The header is that of a telemetry response, and the three lengths agree. -/
def Acceptable (message : List UInt8) : Prop :=
  codec.size ≤ message.length ∧
    let packet := codec.decode (message.take codec.size)
    packet.header.isValid = true ∧
      packet.header.type = IPCMessageType.GetDeviceTelemetryResponse.value ∧
      message.length = codec.size + 16 * packet.coreCount.toNat ∧
      packet.header.messageSize.toNat = message.length - IPCPacketHeader.codec.size

/-- The decoder reads inside the message, and accepts it exactly when it is acceptable. -/
theorem deserialize_spec (message : List UInt8) :
    (deserializeIPCDeviceTelemetryResponsePacket message).Inside message.length ∧
      ∃ d, (deserializeIPCDeviceTelemetryResponsePacket message).result = some d ∧
        ((∃ telemetry, d.telemetry = .ok telemetry) ↔ Acceptable message) := by
  have hrejected : ∀ {e : Errno} {header : Option IPCPacketHeader}, ¬ Acceptable message →
      ∃ d, some (⟨header, .error e⟩ : Decoded) = some d ∧
        ((∃ telemetry, d.telemetry = .ok telemetry) ↔ Acceptable message) := fun hnot =>
    ⟨_, rfl, iff_of_false (fun ⟨_, h⟩ => nomatch h) hnot⟩
  rw [deserializeIPCDeviceTelemetryResponsePacket]
  by_cases hshort : message.length < codec.size
  · rw [if_pos hshort]
    exact ⟨Reads.inside_pure _, hrejected fun h => absurd h.1 (by omega)⟩
  rw [if_neg hshort]
  have hfetch : (fetch codec message 0).Inside message.length :=
    inside_fetch (by omega)
  have hpacket : (fetch codec message 0).result = some (codec.decode (message.take codec.size)) := by
    rw [fetch, Reads.result_range, List.drop_zero]
  simp only [Reads.inside_bind, Reads.result_bind, hpacket, Option.bind_some, Option.some.injEq,
    forall_eq', hfetch, true_and]
  rw [Acceptable] at hrejected
  simp only [Acceptable]
  generalize codec.decode (message.take codec.size) = packet at hrejected ⊢
  have htotal := serializedSize_eq packet.coreCount.toNat
  by_cases hvalid : packet.header.isValid = false
  · rw [if_pos hvalid]
    exact ⟨Reads.inside_pure _, hrejected fun h => by simp [hvalid] at h⟩
  rw [if_neg hvalid]
  by_cases htype : packet.header.type ≠ IPCMessageType.GetDeviceTelemetryResponse.value
  · rw [if_pos htype]
    exact ⟨Reads.inside_pure _, hrejected fun h => htype h.2.2.1⟩
  rw [if_neg htype]
  by_cases hlength : message.length ≠ serializedSize packet.coreCount.toNat
  · rw [if_pos hlength]
    exact ⟨Reads.inside_pure _, hrejected fun h => hlength (by rw [h.2.2.2.1, htotal, size_codec])⟩
  rw [if_neg hlength]
  rw [not_not] at hlength
  by_cases hsize : packet.header.messageSize.toNat ≠
      serializedSize packet.coreCount.toNat - IPCPacketHeader.codec.size
  · rw [if_pos hsize]
    exact ⟨Reads.inside_pure _, hrejected fun h => hsize (by rw [h.2.2.2.2, hlength])⟩
  rw [if_neg hsize]
  rw [not_not] at htype hsize
  obtain ⟨hinside, hsome⟩ := readColumns_spec message (show codec.size + 16 * packet.coreCount.toNat ≤
    message.length by rw [hlength, htotal, size_codec])
  obtain ⟨read, hread⟩ := Option.isSome_iff_exists.mp hsome
  refine ⟨(Reads.inside_bind _ _).mpr ⟨hinside, fun _ _ => Reads.inside_pure _⟩, ?_⟩
  rw [Reads.result_bind, hread, Option.bind_some, Reads.result_pure]
  refine ⟨_, rfl, iff_of_true ⟨_, rfl⟩
    ⟨not_lt.mp hshort, by simpa using hvalid, htype, ?_, by rw [hsize, hlength]⟩⟩
  rw [hlength, htotal, size_codec]

theorem length_columns (cores : List IPCDeviceTelemetryCoreData) :
    (columns cores).length = 16 * cores.length := by
  simp only [columns, List.length_append, length_flatMap_encode, List.length_map]
  change 4 * _ + (4 * _ + (4 * _ + 4 * _)) = _
  omega

variable (currentPid) in
/-- The packet of a payload that fits has the right numbers. -/
theorem responsePacket_spec (hseq : 0 ≤ requestHeader.seqId)
    (hfits : 52 + 16 * telemetry.cores.length ≤ kIPCMaxMessageSize) :
    (responsePacket currentPid requestHeader telemetry).header.isValid = true ∧
      (responsePacket currentPid requestHeader telemetry).coreCount.toNat =
        telemetry.cores.length ∧
      (responsePacket currentPid requestHeader telemetry).header.messageSize.toNat =
        52 + 16 * telemetry.cores.length - 28 := by
  have hmax : kIPCMaxMessageSize = 65536 := rfl
  have hsmall : ∀ {k : ℕ}, k ≤ 65536 → (UInt32.ofNat k).toNat = k := fun {k} hk =>
    UInt32.toNat_ofNat_of_lt (by rw [UInt32.size]; omega)
  have hheader : (responsePacket currentPid requestHeader telemetry).header.messageSize =
      UInt32.ofNat (getSerializedIPCDeviceTelemetryResponseSize telemetry -
        IPCPacketHeader.codec.size) := rfl
  refine ⟨IPCPacketHeader.isValid_iff.mpr ⟨rfl, ?_, rfl, hseq⟩, hsmall (by omega), ?_⟩
  · change (IPCMessageType.ofValue IPCMessageType.GetDeviceTelemetryResponse.value).isSome
    rw [IPCMessageType.ofValue_value]
    rfl
  · rw [hheader, getSerializedIPCDeviceTelemetryResponseSize, serializedSize_eq,
      IPCPacketHeader.size_codec, hsmall (by omega)]

/-- What is written is read back, with the process of the request or, for none, the own process. -/
theorem deserialize_serialize (hseq : 0 ≤ requestHeader.seqId)
    (hfits : 52 + 16 * telemetry.cores.length ≤ kIPCMaxMessageSize) :
    (deserializeIPCDeviceTelemetryResponsePacket
      (codec.encode (responsePacket currentPid requestHeader telemetry) ++
        columns telemetry.cores)).result =
      some ⟨some (responsePacket currentPid requestHeader telemetry).header, .ok telemetry⟩ := by
  obtain ⟨hvalid, hcount, hsize⟩ :=
    responsePacket_spec currentPid hseq hfits
  have htype : (responsePacket currentPid requestHeader telemetry).header.type =
      IPCMessageType.GetDeviceTelemetryResponse.value := rfl
  have hresult : (responsePacket currentPid requestHeader telemetry).result = telemetry.result ∧
      (responsePacket currentPid requestHeader telemetry).usedMemoryBytes =
        telemetry.usedMemoryBytes ∧
      (responsePacket currentPid requestHeader telemetry).freeMemoryBytes =
        telemetry.freeMemoryBytes := ⟨rfl, rfl, rfl⟩
  generalize responsePacket currentPid requestHeader telemetry = packet at *
  have htotal : (codec.encode packet ++ columns telemetry.cores).length =
      serializedSize telemetry.cores.length := by
    rw [List.length_append, length_packet, length_columns, serializedSize_eq]
  have hfetch : (fetch codec (codec.encode packet ++ columns telemetry.cores) 0).result =
      some packet := by
    have hread := result_fetch codec [] (columns telemetry.cores) packet
    rwa [List.nil_append, List.length_nil] at hread
  have hcursor : codec.size = (codec.encode packet).length := (codec.length_encode packet).symm
  have hlong : ¬ (codec.encode packet ++ columns telemetry.cores).length < codec.size := by
    rw [htotal, serializedSize_eq, size_codec]
    omega
  rw [deserializeIPCDeviceTelemetryResponsePacket, if_neg hlong, Reads.result_bind, hfetch,
    Option.bind_some, if_neg (by rw [hvalid]; decide), if_neg (not_not.mpr htype), hcount,
    if_neg (not_not.mpr htotal), if_neg, Reads.result_bind, hcursor, result_readColumns rfl,
    Option.bind_some, Reads.result_pure, hresult.1, hresult.2.1, hresult.2.2]
  rw [not_not, hsize, serializedSize_eq, IPCPacketHeader.size_codec]

/-- The message is too large exactly when its size says so; otherwise the payload and the numbers of
    the request come back, the process being the own one where the request names none. Of any bytes
    the decoder reads only those that are there, and accepts them exactly when they are acceptable. -/
theorem telemetry_codec :
    (∀ currentPid requestHeader telemetry, 0 ≤ requestHeader.seqId →
      (serializeIPCDeviceTelemetryResponsePacket currentPid requestHeader telemetry =
          .error .EMSGSIZE ↔
        kIPCMaxMessageSize < getSerializedIPCDeviceTelemetryResponseSize telemetry) ∧
      (getSerializedIPCDeviceTelemetryResponseSize telemetry ≤ kIPCMaxMessageSize →
        ∃ message header, serializeIPCDeviceTelemetryResponsePacket currentPid requestHeader
            telemetry = .ok message ∧
          message.length = getSerializedIPCDeviceTelemetryResponseSize telemetry ∧
          (deserializeIPCDeviceTelemetryResponsePacket message).result =
            some ⟨some header, .ok telemetry⟩ ∧
          header.seqId = requestHeader.seqId ∧ header.deviceId = requestHeader.deviceId ∧
          header.pid = if requestHeader.pid = 0 then currentPid else requestHeader.pid)) ∧
    ∀ message, (deserializeIPCDeviceTelemetryResponsePacket message).Inside message.length ∧
      ∃ d, (deserializeIPCDeviceTelemetryResponsePacket message).result = some d ∧
        ((∃ telemetry, d.telemetry = .ok telemetry) ↔ Acceptable message) := by
  refine ⟨fun currentPid requestHeader telemetry hseq => ⟨?_, fun hfits => ?_⟩, deserialize_spec⟩
  · constructor
    · intro herror
      by_contra hfits
      have hsize := serializedSize_eq telemetry.cores.length
      rw [getSerializedIPCDeviceTelemetryResponseSize, hsize, not_lt] at hfits
      rw [serialize_eq hfits] at herror
      cases herror
    · intro hlarge
      rw [serializeIPCDeviceTelemetryResponsePacket, if_pos hlarge]
  · rw [getSerializedIPCDeviceTelemetryResponseSize, serializedSize_eq] at hfits ⊢
    refine ⟨_, _, serialize_eq hfits, ?_, deserialize_serialize hseq hfits, rfl, rfl, rfl⟩
    rw [List.length_append, length_packet, length_columns]

/-- Two cores, asked for by the process 7. -/
theorem telemetry_codec_two_cores :
    let request : IPCPacketHeader := ⟨0, 0, 0, 0, 0, 5, 1, 7⟩
    let telemetry : IPCDeviceTelemetryPayload :=
      ⟨0, 4096, 8192, [⟨250, -3, 1000, 750⟩, ⟨1000, 61, 800, 700⟩]⟩
    ∃ message header, serializeIPCDeviceTelemetryResponsePacket 42 request telemetry = .ok message ∧
      message.length = 84 ∧ (deserializeIPCDeviceTelemetryResponsePacket message).result =
        some ⟨some header, .ok telemetry⟩ ∧ header.pid = 7 := by
  obtain ⟨message, header, hwritten, hlen, hread, -, -, hpid⟩ := (telemetry_codec.1 42
    ⟨0, 0, 0, 0, 0, 5, 1, 7⟩ ⟨0, 4096, 8192, [⟨250, -3, 1000, 750⟩, ⟨1000, 61, 800, 700⟩]⟩
    (by decide)).2 (by decide)
  exact ⟨message, header, hwritten, hlen.trans rfl, hread, hpid⟩

/-- A request without a process is answered in the name of the own process. -/
theorem telemetry_codec_no_process :
    let request : IPCPacketHeader := ⟨0, 0, 0, 0, 0, 5, 1, 0⟩
    ∃ message header, 0 ≤ request.seqId ∧
      serializeIPCDeviceTelemetryResponsePacket 42 request ⟨0, 0, 0, []⟩ = .ok message ∧
      (deserializeIPCDeviceTelemetryResponsePacket message).result =
        some ⟨some header, .ok ⟨0, 0, 0, []⟩⟩ ∧ header.pid = 42 ∧ header.pid ≠ request.pid := by
  have hfits : 52 + 16 * ([] : List IPCDeviceTelemetryCoreData).length ≤ kIPCMaxMessageSize := by
    decide
  exact ⟨_, _, by decide, serialize_eq hfits, deserialize_serialize (by decide) hfits, rfl,
    by decide⟩

end Telemetry
end DxRt
