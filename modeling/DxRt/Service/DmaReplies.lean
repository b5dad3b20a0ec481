import DxRt.Lib.Workers
import DxRt.Service.Endpoint
import DxRt.Service.SharedMemory

/-! lib/dxrt_service/dxrt_service_v2.cpp, service_device.cpp: the answers to DMA requests.

    A DMA packet goes through the queue of the IPC handler, which checks it and hands it to a queue of
    the device. A thread of the device lets the driver do the transfer and calls the completion
    callback, which counts the transfer as done and sends the response. The handler itself sends
    nothing: what it turns away is not answered. The items of the queues and the threads are work
    items that are taken up in any order. -/

namespace DxRt

/-- The fields of a request that its response repeats. -/
structure DmaHeader where
  write : Bool
  pid : ℤ
  deviceId : ℤ
  seqId : ℤ
  deriving DecidableEq

structure DmaPacket where
  header : DmaHeader
  blockId : ℤ
  blockOffset : ℕ
  size : ℕ
  deriving DecidableEq

structure DmaResponse where
  header : DmaHeader
  result : ℤ
  deriving DecidableEq

namespace DmaService

/-- The service; `received` and `sent` are what has gone over the connections so far, the responses
    with the client they went to. -/
structure State where
  servers : List IPCServerEndpoint
  pendingDmaOperations : ℕ
  received : List DmaPacket
  sent : List (ℕ × DmaResponse)

inductive Work where
  /-- In the queue of the IPC handler. -/
  | packet (p : DmaPacket)
  /-- In a queue of a device, or in the driver. -/
  | dma (header : DmaHeader) (memInfo : MemInfo)
  /-- In the callback, after `DecrementPendingDMA`. -/
  | completed (header : DmaHeader) (result : ℤ)
  deriving DecidableEq

/-- What the handler finds, and what the driver returns. -/
structure Circumstances where
  context : DmaContext
  result : ℤ

/-- What comes from outside: a packet of a client, or another operation on a server. -/
inductive Arrival where
  | packet (server : ℕ) (clientFd : ℤ) (p : DmaPacket)
  | server (server : ℕ) (s : IPCServerEndpoint)

def init (servers : List IPCServerEndpoint) : Workers.Config State Work := ⟨⟨servers, 0, [], []⟩, []⟩

/-- The request a work item belongs to. -/
def Work.header : Work → DmaHeader
  | .packet p => p.header
  | .dma header _ => header
  | .completed header _ => header

def Work.isDma : Work → Bool
  | .dma .. => true
  | _ => false

/-- The first server that knows the process. -/
def sendToPidAcrossServers (servers : List IPCServerEndpoint) (pid : ℤ) : Option ℕ :=
  servers.findSome? fun server => server.sendToPid pid

/-- `HandleDMARead` and `HandleDMAWrite`. -/
def handleDMA (context : DmaContext) (p : DmaPacket) : DmaOutcome :=
  context.handleDMA p.header.write p.header.pid p.header.deviceId p.blockId p.blockOffset p.size

def exec (s : State) : Work → Circumstances → Option (State × List Work)
  | .packet p, e =>
    match (handleDMA e.context p).meminfo with
    | some memInfo =>
      some ({ s with pendingDmaOperations := s.pendingDmaOperations + 1 }, [.dma p.header memInfo])
    -- the return code goes to the log
    | none => some (s, [])
  | .dma header _, e =>
    some ({ s with pendingDmaOperations := s.pendingDmaOperations - 1 }, [.completed header e.result])
  | .completed header result, _ =>
    match sendToPidAcrossServers s.servers header.pid with
    | some client => some ({ s with sent := (client, ⟨header, result⟩) :: s.sent }, [])
    | none => some (s, [])

/-- A packet binds its process to the client. -/
def arrive (s : State) : Arrival → Option (State × List Work)
  | .packet i clientFd p =>
    match s.servers[i]? with
    | none => none
    | some server =>
      if 0 ≤ clientFd ∧ server.clients.contains clientFd then
        some ({ s with
          servers := s.servers.set i (server.bindPidToClient p.header.pid clientFd)
          received := p :: s.received }, [.packet p])
      else none
  | .server i server =>
    if i < s.servers.length then some ({ s with servers := s.servers.set i server }, []) else none

def system : Workers.System State Work Circumstances Arrival := ⟨exec, arrive⟩

/-! ### Every packet has one response -/

/-- A message to the process can be sent. -/
def HasRoute (servers : List IPCServerEndpoint) (pid : ℤ) : Prop :=
  (sendToPidAcrossServers servers pid).isSome

/-- The connection of the process stays up. -/
def StaysUp (pid : ℤ) (s : State) (a : Arrival) : Prop :=
  ∀ r ∈ arrive s a, HasRoute s.servers pid → HasRoute r.1.servers pid

/-- The request has a size, names a device and lies in a block of the process, and there is no
    recovery. -/
def Accepted (context : DmaContext) (p : DmaPacket) : Prop :=
  p.size ≠ 0 ∧ 0 ≤ p.header.deviceId ∧ p.header.deviceId < context.memAddr.length ∧
    context.recoveryInProgress = false ∧
    ∃ handle ∈ context.table.tryGetSharedMemoryHandle p.header.deviceId p.header.pid
        (HandleTable.toUint64 p.blockId),
      handle.ptr ≠ 0 ∧ (p.blockOffset + p.size) % 2 ^ 64 ≤ handle.size

/-- The handler takes up a packet of the process only when it is accepted. -/
def Meets (pid : ℤ) (_ : State) : Work → Circumstances → Prop
  | .packet p, e => p.header.pid = pid → Accepted e.context p
  | _, _ => True

instance (pid : ℤ) (s : State) (a : Arrival) : Decidable (StaysUp pid s a) :=
  inferInstanceAs (Decidable (∀ r ∈ arrive s a, (_ : Bool) = true → (_ : Bool) = true))

instance (context : DmaContext) (p : DmaPacket) : Decidable (Accepted context p) :=
  inferInstanceAs (Decidable (_ ∧ _ ∧ _ ∧ _ ∧ _))

instance (pid : ℤ) (s : State) : ∀ w e, Decidable (Meets pid s w e)
  | .packet _, _ => inferInstanceAs (Decidable (_ → Accepted _ _))
  | .dma .., _ => .isTrue trivial
  | .completed .., _ => .isTrue trivial

/-- Every packet of the process has one response, or is on its way to it; the counter counts the
    transfers that are not done. -/
structure Answered (pid : ℤ) (c : Workers.Config State Work) : Prop where
  once : ∀ header : DmaHeader, header.pid = pid →
    (c.shared.sent.map fun r => r.2.header).count header + (c.work.map Work.header).count header =
      (c.shared.received.map DmaPacket.header).count header
  pending : c.shared.pendingDmaOperations = c.work.countP Work.isDma

/-! ### The handler and the route -/

variable {pid : ℤ} {s s' : State} {w : Work} {work new : List Work} {e : Circumstances}

/-- The transfer is submitted exactly when the request is accepted. -/
theorem handleDMA_meminfo (context : DmaContext) (p : DmaPacket) :
    (handleDMA context p).meminfo.isSome ↔ Accepted context p := by
  rw [handleDMA, DmaContext.handleDMA, Accepted]
  split
  · next hsize => simp [hsize]
  next hsize =>
  split
  · next hdevice =>
    simp only [Option.isSome_none, Bool.false_eq_true, false_iff]
    exact fun h => absurd hdevice (by omega)
  next hdevice =>
  split
  · next hrecovery => simp [hrecovery]
  next hrecovery =>
  cases hfind : context.table.tryGetSharedMemoryHandle p.header.deviceId p.header.pid
      (HandleTable.toUint64 p.blockId) with
  | none => simp
  | some handle =>
    simp only [Option.mem_def, Option.some.injEq, exists_eq_left']
    split
    · simp only [Option.isSome_none, Bool.false_eq_true, false_iff]
      exact fun h => absurd h.2.2.2.2 (by omega)
    · simp only [Option.isSome_some, true_iff]
      exact ⟨hsize, by omega, by omega, by simpa using hrecovery, by omega⟩

theorem hasRoute_set {servers : List IPCServerEndpoint} {i : ℕ} {server : IPCServerEndpoint}
    (hi : i < servers.length) (h : (server.sendToPid pid).isSome) :
    HasRoute (servers.set i server) pid :=
  List.findSome?_isSome_iff.mpr ⟨server, List.mem_set hi server, h⟩

/-- A packet of a process makes its connection the way back. -/
theorem sendToPid_bind {server : IPCServerEndpoint} {clientFd : ℤ} (hpid : 0 < pid)
    (hfd : 0 ≤ clientFd) (hclient : server.clients.contains clientFd = true) :
    ((server.bindPidToClient pid clientFd).sendToPid pid).isSome := by
  rw [IPCServerEndpoint.bindPidToClient, if_neg (by omega)]
  simp only [IPCServerEndpoint.sendToPid, SortedMap.find?_insert, if_true]
  rwa [← SortedMap.contains]

/-! ### What a step keeps -/

structure Inv (pid : ℤ) (s : State) (work : List Work) : Prop where
  answered : Answered pid ⟨s, work⟩
  route : ∀ w ∈ work, w.header.pid = pid → HasRoute s.servers pid

theorem Inv.perm {work' : List Work} (hperm : work.Perm work') (h : Inv pid s work) :
    Inv pid s work' := by
  refine ⟨⟨fun header hheader => ?_, ?_⟩, fun w hw => h.route w (hperm.mem_iff.mpr hw)⟩
  · rw [← h.answered.once header hheader, (hperm.map Work.header).count_eq]
  · rw [h.answered.pending, hperm.countP_eq]

/-- What an item leaves behind: the same request, or its response. -/
theorem exec_cases (hexec : exec s w e = some (s', new)) :
    (∃ p memInfo, w = .packet p ∧ (handleDMA e.context p).meminfo = some memInfo ∧
      s' = { s with pendingDmaOperations := s.pendingDmaOperations + 1 } ∧
      new = [.dma p.header memInfo]) ∨
    (∃ p, w = .packet p ∧ (handleDMA e.context p).meminfo = none ∧ s' = s ∧ new = []) ∨
    (∃ header memInfo, w = .dma header memInfo ∧
      s' = { s with pendingDmaOperations := s.pendingDmaOperations - 1 } ∧
      new = [.completed header e.result]) ∨
    (∃ header result client, w = .completed header result ∧
      sendToPidAcrossServers s.servers header.pid = some client ∧
      s' = { s with sent := (client, ⟨header, result⟩) :: s.sent } ∧ new = []) ∨
    ∃ header result, w = .completed header result ∧
      sendToPidAcrossServers s.servers header.pid = none ∧ s' = s ∧ new = [] := by
  cases w with
  | packet p =>
    cases hhandle : (handleDMA e.context p).meminfo with
    | none =>
      simp only [exec, hhandle, Option.some.injEq, Prod.mk.injEq] at hexec
      exact Or.inr (Or.inl ⟨p, rfl, hhandle, hexec.1.symm, hexec.2.symm⟩)
    | some memInfo =>
      simp only [exec, hhandle, Option.some.injEq, Prod.mk.injEq] at hexec
      exact Or.inl ⟨p, memInfo, rfl, hhandle, hexec.1.symm, hexec.2.symm⟩
  | dma header memInfo =>
    simp only [exec, Option.some.injEq, Prod.mk.injEq] at hexec
    exact Or.inr (Or.inr (Or.inl ⟨header, memInfo, rfl, hexec.1.symm, hexec.2.symm⟩))
  | completed header result =>
    cases hsend : sendToPidAcrossServers s.servers header.pid with
    | none =>
      simp only [exec, hsend, Option.some.injEq, Prod.mk.injEq] at hexec
      exact Or.inr (Or.inr (Or.inr (Or.inr
        ⟨header, result, rfl, hsend, hexec.1.symm, hexec.2.symm⟩)))
    | some client =>
      simp only [exec, hsend, Option.some.injEq, Prod.mk.injEq] at hexec
      exact Or.inr (Or.inr (Or.inr (Or.inl
        ⟨header, result, client, rfl, hsend, hexec.1.symm, hexec.2.symm⟩)))

theorem count_of_ne {header header' : DmaHeader} (h : header.pid = pid) (h' : header'.pid ≠ pid)
    (l : List DmaHeader) : (header' :: l).count header = l.count header :=
  List.count_cons_of_ne fun heq : header' = header => h' (heq ▸ h)

theorem Inv.exec {rest : List Work} (h : Inv pid s (w :: rest)) (hok : Meets pid s w e)
    (hexec : exec s w e = some (s', new)) : Inv pid s' (new ++ rest) := by
  obtain ⟨⟨honce, hpending⟩, hroute⟩ := h
  simp only [List.map_cons, List.countP_cons] at honce hpending
  rcases exec_cases hexec with ⟨p, memInfo, rfl, -, rfl, rfl⟩ | ⟨p, rfl, hnone, rfl, rfl⟩ |
    ⟨header, memInfo, rfl, rfl, rfl⟩ | ⟨header, result, client, rfl, -, rfl, rfl⟩ |
    ⟨header, result, rfl, hnone, rfl, rfl⟩
  · refine ⟨⟨honce, ?_⟩, ?_⟩
    · simp [hpending, Work.isDma, List.countP_cons]
    · simpa [Work.header] using hroute
  · -- the packet is from another process
    have hother : p.header.pid ≠ pid := fun heq => by
      have hsome := (handleDMA_meminfo e.context p).mpr (hok heq)
      simp [hnone] at hsome
    refine ⟨⟨fun header hheader => ?_, ?_⟩, fun w hw => hroute w (List.mem_cons_of_mem _ hw)⟩
    · rw [← honce header hheader, Work.header, count_of_ne hheader hother]
      rfl
    · simpa [Work.isDma] using hpending
  · refine ⟨⟨honce, ?_⟩, ?_⟩
    · simp [hpending, Work.isDma]
    · simpa [Work.header] using hroute
  · refine ⟨⟨fun header' hheader => ?_, ?_⟩, fun w hw => hroute w (List.mem_cons_of_mem _ hw)⟩
    · have hcount := honce header' hheader
      simp only [Work.header, List.count_cons, List.map_cons, List.nil_append] at hcount ⊢
      omega
    · simpa [Work.isDma] using hpending
  · -- a response that cannot be sent is to another process
    have hother : header.pid ≠ pid := fun heq => by
      have hsome := hroute _ List.mem_cons_self heq
      rw [HasRoute, ← heq, hnone] at hsome
      exact absurd hsome (by decide)
    refine ⟨⟨fun header' hheader => ?_, ?_⟩, fun w hw => hroute w (List.mem_cons_of_mem _ hw)⟩
    · rw [← honce header' hheader, Work.header, count_of_ne hheader hother]
      rfl
    · simpa [Work.isDma] using hpending

/-- A packet, or another operation on a server. -/
theorem arrive_cases {a : Arrival} (h : arrive s a = some (s', new)) :
    (∃ i clientFd p server, a = .packet i clientFd p ∧ s.servers[i]? = some server ∧
      0 ≤ clientFd ∧ server.clients.contains clientFd = true ∧
      s' = { s with
        servers := s.servers.set i (server.bindPidToClient p.header.pid clientFd)
        received := p :: s.received } ∧ new = [.packet p]) ∨
    ∃ i server, a = .server i server ∧ s' = { s with servers := s.servers.set i server } ∧
      new = [] := by
  cases a with
  | packet i clientFd p =>
    rw [arrive] at h
    split at h
    · cases h
    next server hserver =>
    split at h
    · next hclient =>
      simp only [Option.some.injEq, Prod.mk.injEq] at h
      exact Or.inl ⟨i, clientFd, p, server, rfl, hserver, hclient.1, hclient.2, h.1.symm, h.2.symm⟩
    · cases h
  | server i server =>
    rw [arrive] at h
    split at h
    · simp only [Option.some.injEq, Prod.mk.injEq] at h
      exact Or.inr ⟨i, server, rfl, h.1.symm, h.2.symm⟩
    · cases h

theorem Inv.arrive {a : Arrival} (hpid : 0 < pid) (h : Inv pid s work) (hup : StaysUp pid s a)
    (harrive : arrive s a = some (s', new)) : Inv pid s' (new ++ work) := by
  have hkept : ∀ w ∈ work, w.header.pid = pid → HasRoute s'.servers pid := fun w hw heq =>
    hup _ harrive (h.route w hw heq)
  rcases arrive_cases harrive with ⟨i, clientFd, p, server, rfl, hserver, hfd, hclient, rfl, rfl⟩ |
    ⟨i, server, rfl, rfl, rfl⟩
  · refine ⟨⟨fun header hheader => ?_, ?_⟩, fun w hw heq => ?_⟩
    · have hcount := h.answered.once header hheader
      simp only [Work.header, List.count_cons, List.map_cons, List.cons_append,
        List.nil_append] at hcount ⊢
      omega
    · simpa [Work.isDma] using h.answered.pending
    · rcases List.mem_cons.mp hw with rfl | hold
      · obtain rfl : p.header.pid = pid := heq
        exact hasRoute_set (List.getElem?_eq_some_iff.mp hserver).1
          (sendToPid_bind hpid hfd hclient)
      · exact hkept w hold heq
  · exact ⟨⟨h.answered.once, h.answered.pending⟩, hkept⟩

/-! ### Every run -/

/-- How many steps an item is from its end. -/
def Work.left : Work → ℕ
  | .packet _ => 3
  | .dma .. => 2
  | .completed .. => 1

/-- An item can always be taken up, and leaves less to do. -/
theorem exec_progress (s : State) (w : Work) (e : Circumstances) :
    ∃ r, exec s w e = some r ∧ (r.2.map Work.left).sum < w.left := by
  cases w with
  | packet p =>
    rw [exec]
    split
    · exact ⟨_, rfl, by simp [Work.left]⟩
    · exact ⟨_, rfl, by simp [Work.left]⟩
  | dma header memInfo => exact ⟨_, rfl, by simp [Work.left]⟩
  | completed header result =>
    rw [exec]
    split
    · exact ⟨_, rfl, by simp [Work.left]⟩
    · exact ⟨_, rfl, by simp [Work.left]⟩

theorem inv_init (pid : ℤ) (servers : List IPCServerEndpoint) :
    Inv pid (init servers).shared (init servers).work :=
  ⟨⟨fun _ _ => rfl, rfl⟩, fun _ hw => absurd hw List.not_mem_nil⟩

/-- What the handler turns away is lost. -/
theorem not_answered_of_not_accepted {before after : List Work} {p : DmaPacket}
    (h : Answered pid ⟨s, before ++ .packet p :: after⟩) (hheader : p.header.pid = pid)
    (hbad : ¬ Accepted e.context p) (hexec : exec s (.packet p) e = some (s', new)) :
    ¬ Answered pid ⟨s', before ++ new ++ after⟩ := by
  intro h'
  have hnone : (handleDMA e.context p).meminfo = none := by
    rw [← Option.not_isSome_iff_eq_none, handleDMA_meminfo]
    exact hbad
  simp only [exec, hnone, Option.some.injEq, Prod.mk.injEq] at hexec
  obtain ⟨rfl, rfl⟩ := hexec
  have hcount := h.once p.header hheader
  have hcount' := h'.once p.header hheader
  simp only [List.map_append, List.map_cons, List.count_append, List.count_cons, Work.header,
    List.map_nil, List.count_nil, beq_self_eq_true, if_true] at hcount hcount'
  omega

/-- A process whose connection stays up, with requests that are accepted: in every state each of them
    has one response or is on its way to it, and the counter is the number of transfers that are not
    done. What is on its way gets on; and the first request that is not accepted is lost. -/
theorem dma_answered_once (pid : ℤ) (hpid : 0 < pid) (servers : List IPCServerEndpoint)
    {c : Workers.Config State Work}
    (hrun : Relation.ReflTransGen (Workers.Step system (Meets pid) (StaysUp pid)) (init servers) c) :
    Answered pid c ∧
    (∀ w ∈ c.work, ∀ e, ∃ r, system.exec c.shared w e = some r ∧
      (r.2.map Work.left).sum < w.left) ∧
    ∀ before p after e s' new, c.work = before ++ .packet p :: after → p.header.pid = pid →
      ¬ Accepted e.context p → system.exec c.shared (.packet p) e = some (s', new) →
        ¬ Answered pid ⟨s', before ++ new ++ after⟩ := by
  have hinv : Inv pid c.shared c.work :=
    Workers.invariant (fun _ _ _ hperm h => h.perm hperm)
      (fun _ _ _ _ _ _ h hok hexec => h.exec hok hexec)
      (fun _ _ _ _ _ h hup harrive => h.arrive hpid hup harrive) hrun (inv_init pid servers)
  refine ⟨hinv.answered, fun w _ e => exec_progress c.shared w e, ?_⟩
  intro before p after e s' new hwork hheader hbad hexec
  refine not_answered_of_not_accepted ?_ hheader hbad hexec
  rw [← hwork]
  exact hinv.answered

/-- A request with a sequence number of its own that is not on its way any more has one response. -/
theorem Answered.single {c : Workers.Config State Work} (h : Answered pid c)
    (hnodup : (c.shared.received.map DmaPacket.header).Nodup) {p : DmaPacket}
    (hp : p ∈ c.shared.received) (hheader : p.header.pid = pid)
    (hdone : ∀ w ∈ c.work, w.header ≠ p.header) :
    (c.shared.sent.map fun r => r.2.header).count p.header = 1 := by
  have hcount := h.once p.header hheader
  have hwork : (c.work.map Work.header).count p.header = 0 :=
    List.count_eq_zero.mpr fun hmem => by
      obtain ⟨w, hw, heq⟩ := List.mem_map.mp hmem
      exact hdone w hw heq
  rw [hwork, List.count_eq_one_of_mem hnodup (List.mem_map_of_mem hp)] at hcount
  exact hcount

/-- A server with one client. -/
def oneClient : IPCServerEndpoint :=
  { IPCServerEndpoint.init with clients := .insert .empty 1 0, nextClientId := 2, accepted := 1 }

/-- A block of 4096 bytes of process 7; the driver succeeds. -/
def oneBlock (recoveryInProgress : Bool) : Circumstances :=
  ⟨⟨HandleTable.trackSharedMemoryHandle .empty 0 7 ⟨1, 4096, 65536, 0, 8192, 5⟩, [0],
    recoveryInProgress⟩, 0⟩

/-- A write of the first 64 bytes. -/
def oneWrite : DmaPacket := ⟨⟨true, 7, 0, 1⟩, 1, 0, 64⟩

theorem dma_answered_once_write : ∃ c,
    Workers.play system (Meets 7) (StaysUp 7) (init [oneClient])
      (.arrive (.packet 0 1 oneWrite) :: List.replicate 3 (.work 0 (oneBlock false))) = some c ∧
    c.shared.sent = [(0, ⟨oneWrite.header, 0⟩)] ∧ c.shared.pendingDmaOperations = 0 ∧
    Answered 7 c := by
  have hplay : ∃ c, Workers.play system (Meets 7) (StaysUp 7) (init [oneClient])
      (.arrive (.packet 0 1 oneWrite) :: List.replicate 3 (.work 0 (oneBlock false))) = some c ∧
      c.shared.sent = [(0, ⟨oneWrite.header, 0⟩)] ∧ c.shared.pendingDmaOperations = 0 :=
    ⟨_, rfl, by decide +kernel, by decide +kernel⟩
  obtain ⟨c, hc, hsent, hpending⟩ := hplay
  exact ⟨c, hc, hsent, hpending,
    (dma_answered_once 7 (by decide) [oneClient] (Workers.play_run hc)).1⟩

/-- During recovery the same request is not answered, now or later. -/
theorem dma_lost_in_recovery : ∃ c,
    Workers.play system (fun _ _ _ => True) (StaysUp 7) (init [oneClient])
      [.arrive (.packet 0 1 oneWrite), .work 0 (oneBlock true)] = some c ∧
    c.shared.received = [oneWrite] ∧ c.shared.sent = [] ∧ c.work = [] ∧ ¬ Answered 7 c := by
  have hplay : ∃ c, Workers.play system (fun _ _ _ => True) (StaysUp 7) (init [oneClient])
      [.arrive (.packet 0 1 oneWrite), .work 0 (oneBlock true)] = some c ∧
      c.shared.received = [oneWrite] ∧ c.shared.sent = [] ∧ c.work = [] :=
    ⟨_, rfl, by decide +kernel, by decide +kernel, by decide +kernel⟩
  obtain ⟨c, hc, hreceived, hsent, hwork⟩ := hplay
  refine ⟨c, hc, hreceived, hsent, hwork, fun h => ?_⟩
  have hcount := h.once oneWrite.header rfl
  rw [hreceived, hsent, hwork] at hcount
  exact absurd hcount (by decide)

end DmaService
end DxRt
