import DxRt.Lib.SortedMap
import DxRt.Lib.Workers
import DxRt.Service.Packet

/-! lib/dynamic_ipc/transport/ipc_client_endpoint.cpp: requests that wait for their response.

    A thread that sends a request first enters a promise under the sequence number of the request.
    The receive loop takes the promise out again when a message with that number comes in, and fails
    all that are left when the connection is lost; `close` does the same. Every access to the table
    is one section of `_pendingMutex`, the channel is an atomic handle, and everything else may fall
    in between. -/

namespace DxRt
open Bytes

/-- What a promise is fulfilled with. -/
inductive Fulfilment where
  | message (data : List UInt8)
  | closed
  deriving DecidableEq

/-- The promise, by its number. -/
structure PendingResponse where
  promise : ℕ
  completed : Bool
  deriving DecidableEq

namespace IPCClientEndpoint

inductive Event where
  | numbered (seqId : ℤ)
  | registered (promise : ℕ) (seqId : ℤ)
  | sent (seqId : ℤ)
  /-- `sendMessageTrackResponse` returns -1. -/
  | failed (seqId : ℤ)
  | fulfilled (promise : ℕ) (outcome : Fulfilment)
  /-- `_onReceive`. -/
  | unsolicited (data : List UInt8)
  deriving DecidableEq

end IPCClientEndpoint

/-- An endpoint that has been connected, and is not connected again. -/
structure IPCClientEndpoint where
  /-- `_channel.isValid()`. -/
  handleValid : Bool
  receiveLoopRunning : Bool
  /-- `_receiveThread.joinable()`. -/
  joinable : Bool
  pendingResponses : SortedMap ℤ PendingResponse
  /-- How many promises have been made. -/
  promises : ℕ
  /-- The thread of the receive loop has ended. -/
  loopEnded : Bool
  log : List IPCClientEndpoint.Event

namespace IPCClientEndpoint

def init : IPCClientEndpoint := ⟨true, true, true, .empty, 0, false, []⟩

def record (s : IPCClientEndpoint) (ev : Event) : IPCClientEndpoint := { s with log := ev :: s.log }

/-! ### Sections of the table -/

/-- For a positive number. -/
def registerPendingResponse (s : IPCClientEndpoint) (sequenceId : ℤ) : IPCClientEndpoint :=
  { s with
    pendingResponses := s.pendingResponses.insert sequenceId ⟨s.promises, false⟩
    promises := s.promises + 1
    log := .registered s.promises sequenceId :: s.log }

def tryMatchPendingResponse (s : IPCClientEndpoint) (seqId : ℤ) (message : List UInt8) :
    IPCClientEndpoint × Bool :=
  match s.pendingResponses.find? seqId with
  | none => (s, false)
  | some pending =>
    let s := { s with pendingResponses := s.pendingResponses.erase seqId }
    if pending.completed then (s, false)
    else (s.record (.fulfilled pending.promise (.message message)), true)

/-- After a send that failed. -/
def erasePendingResponse (s : IPCClientEndpoint) (seqId : ℤ) : IPCClientEndpoint :=
  { s with pendingResponses := s.pendingResponses.erase seqId }.record (.failed seqId)

def failPendingResponses (s : IPCClientEndpoint) : IPCClientEndpoint :=
  let open_ := s.pendingResponses.entries.filter fun entry => !entry.2.completed
  { s with
    pendingResponses := .empty
    log := open_.map (fun entry => .fulfilled entry.2.promise .closed) ++ s.log }

/-! ### Threads -/

/-- The arguments of `sendMessageTrackResponse` that are checked. -/
structure Call where
  dataNull : Bool
  futureNull : Bool
  size : ℕ
  deriving DecidableEq

inductive Work where
  -- `sendMessageTrackResponse`
  | checkValid (call : Call)
  | checkRunning (call : Call)
  | number
  | register (seqId : ℤ)
  | load (seqId : ℤ)
  | sendmsg (seqId : ℤ)
  | erase (seqId : ℤ)
  -- `receiveLoop`
  | loop
  | receive
  | received (message : List UInt8)
  | handler (message : List UInt8)
  | loopStop
  | loopClose
  | loopFail
  -- `close`, whether it is the receive thread itself that is in it
  | stop (self : Bool)
  | stopClose (self : Bool)
  | stopJoin (self : Bool)
  | join
  | close
  | fail
  deriving DecidableEq

/-- What the environment decides: the next number, whether the bytes can be sent, and what comes in
    (nothing when the connection is lost). -/
structure Circumstances where
  seqId : ℤ
  sendOk : Bool
  received : Option (List UInt8)

inductive Arrival where
  | sendMessageTrackResponse (call : Call)
  | close (self : Bool)

/-- The header of a message, if it has a valid one. -/
def messageHeader? (message : List UInt8) : Option IPCPacketHeader :=
  if message.length < IPCPacketHeader.codec.size then none
  else
    let header := IPCPacketHeader.codec.decode (message.take IPCPacketHeader.codec.size)
    if header.isValid = false then none else some header

/-- The loop with a message: what is not the response to a pending request goes to the handler. -/
def onMessage (s : IPCClientEndpoint) (message : List UInt8) : IPCClientEndpoint × Work :=
  match messageHeader? message with
  | none => (s, .loop)
  | some header =>
    if 0 < header.seqId.toInt then
      let (s, matched) := s.tryMatchPendingResponse header.seqId.toInt message
      (s, if matched then .loop else .handler message)
    else (s, .handler message)

def exec (s : IPCClientEndpoint) : Work → Circumstances → Option (IPCClientEndpoint × List Work)
  | .checkValid call, _ => some (s, if s.handleValid then [.checkRunning call] else [])
  | .checkRunning call, _ =>
    some (s, if s.receiveLoopRunning = false then []
      else if call.dataNull ∨ call.futureNull then []
      else if call.size < IPCPacketHeader.codec.size then [] else [.number])
  | .number, e => some (s.record (.numbered e.seqId), [.register e.seqId])
  | .register seqId, _ =>
    if seqId ≤ 0 then some (s.record (.failed seqId), [])
    else some (s.registerPendingResponse seqId, [.load seqId])
  | .load seqId, _ => some (s, [if s.handleValid then .sendmsg seqId else .erase seqId])
  | .sendmsg seqId, e =>
    if e.sendOk then some (s.record (.sent seqId), []) else some (s, [.erase seqId])
  | .erase seqId, _ => some (s.erasePendingResponse seqId, [])
  | .loop, _ => some (s, [if s.receiveLoopRunning then .receive else .loopStop])
  | .receive, e =>
    match e.received with
    | none => some (s, [.loopStop])
    | some message => some (s, [.received message])
  | .received message, _ => some ((s.onMessage message).1, [(s.onMessage message).2])
  | .handler message, _ => some (s.record (.unsolicited message), [.loop])
  | .loopStop, _ => some ({ s with receiveLoopRunning := false }, [.loopClose])
  | .loopClose, _ => some ({ s with handleValid := false }, [.loopFail])
  | .loopFail, _ => some ({ s.failPendingResponses with loopEnded := true }, [])
  | .stop self, _ => some ({ s with receiveLoopRunning := false }, [.stopClose self])
  | .stopClose self, _ => some ({ s with handleValid := false }, [.stopJoin self])
  | .stopJoin self, _ =>
    if s.joinable then some ({ s with joinable := false }, [if self then .close else .join])
    else some (s, [.close])
  | .join, _ => if s.loopEnded then some (s, [.close]) else none
  | .close, _ => some ({ s with handleValid := false }, [.fail])
  | .fail, _ => some (s.failPendingResponses, [])

def arrive (s : IPCClientEndpoint) : Arrival → Option (IPCClientEndpoint × List Work)
  | .sendMessageTrackResponse call => some (s, [.checkValid call])
  | .close self => some (s, [.stop self])

def system : Workers.System IPCClientEndpoint Work Circumstances Arrival := ⟨exec, arrive⟩

/-- `getNextIPCPacketSequenceId` does not return the same number twice. -/
def FreshNumbers (s : IPCClientEndpoint) (w : Work) (e : Circumstances) : Prop :=
  w = .number → .numbered e.seqId ∉ s.log

instance (s : IPCClientEndpoint) (w : Work) (e : Circumstances) : Decidable (FreshNumbers s w e) :=
  inferInstanceAs (Decidable (_ → _))

/-! ### A promise is fulfilled once, and with its own answer -/

/-- How often a promise has been fulfilled. -/
def fulfilments (promise : ℕ) (log : List Event) : ℕ :=
  log.countP fun
    | .fulfilled p _ => decide (p = promise)
    | _ => false

/-- What the request with that number may be answered with: the error, or a message with its
    number. -/
def Fulfilment.For (seqId : ℤ) : Fulfilment → Prop
  | .closed => True
  | .message data => ∃ header, messageHeader? data = some header ∧ header.seqId.toInt = seqId

/-- A promise belongs to one number, is fulfilled once at most, and only with the error or with a
    message that carries the number. After a failed send the number is not in the table; and after the
    loop has ended, no number that was sent is, and its promise has been fulfilled. -/
structure Served (s : IPCClientEndpoint) : Prop where
  number : ∀ p n n', .registered p n ∈ s.log → .registered p n' ∈ s.log → n' = n
  once : ∀ p, fulfilments p s.log ≤ 1
  own : ∀ p outcome, .fulfilled p outcome ∈ s.log →
    ∃ n, .registered p n ∈ s.log ∧ Fulfilment.For n outcome
  failed : ∀ n, .failed n ∈ s.log → s.pendingResponses.find? n = none
  ended : s.loopEnded = true → ∀ n, .sent n ∈ s.log → s.pendingResponses.find? n = none ∧
    ∃ p, .registered p n ∈ s.log ∧ ∃ outcome, .fulfilled p outcome ∈ s.log

/-! ### The table -/

/-- The promises in the table are those that have neither been fulfilled nor taken out by a failed
    send; and no two numbers share a promise. -/
structure TableInv (s : IPCClientEndpoint) : Prop where
  registered : ∀ p n, .registered p n ∈ s.log → .numbered n ∈ s.log ∧ p < s.promises
  promise : ∀ p n n', .registered p n ∈ s.log → .registered p n' ∈ s.log → n' = n
  number : ∀ p p' n, .registered p n ∈ s.log → .registered p' n ∈ s.log → p' = p
  pending : ∀ n pending, s.pendingResponses.find? n = some pending →
    pending.completed = false ∧ .registered pending.promise n ∈ s.log ∧
      ∀ outcome, .fulfilled pending.promise outcome ∉ s.log
  once : ∀ p, fulfilments p s.log ≤ 1
  own : ∀ p outcome, .fulfilled p outcome ∈ s.log →
    ∃ n, .registered p n ∈ s.log ∧ Fulfilment.For n outcome
  kept : ∀ p n, .registered p n ∈ s.log → (∃ outcome, .fulfilled p outcome ∈ s.log) ∨
    s.pendingResponses.find? n = some ⟨p, false⟩ ∨ .failed n ∈ s.log
  failed : ∀ n, .failed n ∈ s.log →
    s.pendingResponses.find? n = none ∧ .numbered n ∈ s.log ∧ .sent n ∉ s.log
  sent : ∀ n, .sent n ∈ s.log → ∃ p, .registered p n ∈ s.log

variable {s s' : IPCClientEndpoint} {p : ℕ} {n : ℤ} {log : List Event}

theorem tableInv_init : TableInv init where
  registered _ _ h := nomatch h
  promise _ _ _ h := nomatch h
  number _ _ _ h := nomatch h
  pending _ _ h := by simp [init] at h
  once _ := Nat.zero_le _
  own _ _ h := nomatch h
  kept _ _ h := nomatch h
  failed _ h := nomatch h
  sent _ h := nomatch h

theorem fulfilments_eq_zero (h : ∀ outcome, .fulfilled p outcome ∉ log) : fulfilments p log = 0 := by
  rw [fulfilments, List.countP_eq_zero]
  rintro ev hmem hev
  cases ev with
  | fulfilled p' outcome =>
    obtain rfl : p' = p := by simpa using hev
    exact h outcome hmem
  | _ => cases hev

theorem fulfilments_append (l : List (ℕ × Fulfilment)) :
    fulfilments p (l.map (fun o => .fulfilled o.1 o.2) ++ log) =
      (l.map Prod.fst).count p + fulfilments p log := by
  rw [fulfilments, List.countP_append, List.countP_map, List.count, List.countP_map]
  refine congrArg (· + _) (List.countP_congr fun o _ => ?_)
  simp

/-- An event that says nothing about the table. -/
theorem TableInv.record_neutral {ev : Event} (h : TableInv s)
    (hev : (∃ n, ev = .numbered n) ∨ ∃ data, ev = .unsolicited data) : TableInv (s.record ev) := by
  obtain ⟨hreg, hpromise, hnumber, hpending, honce, hown, hkept, hfailed, hsent⟩ := h
  obtain ⟨n, rfl⟩ | ⟨data, rfl⟩ := hev <;> constructor <;>
    simp only [record, List.mem_cons, reduceCtorEq, false_or, fulfilments, List.countP_cons,
      Bool.false_eq_true, if_false, Nat.add_zero] <;> try assumption
  · exact fun p n' h => ⟨Or.inr (hreg p n' h).1, (hreg p n' h).2⟩
  · exact fun n' h => ⟨(hfailed n' h).1, Or.inr (hfailed n' h).2.1, (hfailed n' h).2.2⟩

theorem TableInv.record_sent (h : TableInv s) (hreg : ∃ p, .registered p n ∈ s.log)
    (hfailed : .failed n ∉ s.log) : TableInv (s.record (.sent n)) := by
  refine ⟨?_, ?_, ?_, ?_, ?_, ?_, ?_, fun n' hn' => ?_, fun n' hn' => ?_⟩
  all_goals simp only [record, List.mem_cons, reduceCtorEq, false_or] at *
  · exact h.registered
  · exact h.promise
  · exact h.number
  · exact h.pending
  · exact h.once
  · exact h.own
  · exact h.kept
  · obtain ⟨hnone, hnumbered, hsent⟩ := h.failed n' hn'
    refine ⟨hnone, hnumbered, ?_⟩
    rintro (heq | hold)
    · obtain rfl := Event.sent.inj heq
      exact hfailed hn'
    · exact hsent hold
  · rcases hn' with heq | hold
    · obtain rfl := Event.sent.inj heq
      exact hreg
    · exact h.sent n' hold

/-- A request that was not sent leaves the table. -/
theorem TableInv.erase (h : TableInv s) (hnumbered : .numbered n ∈ s.log)
    (hsent : .sent n ∉ s.log) : TableInv (s.erasePendingResponse n) := by
  refine ⟨?_, ?_, ?_, fun n' pr hfind => ?_, ?_, ?_, fun p n' hreg => ?_, fun n' hn' => ?_, ?_⟩
  all_goals simp only [erasePendingResponse, record, List.mem_cons, reduceCtorEq, false_or] at *
  · exact h.registered
  · exact h.promise
  · exact h.number
  · rw [SortedMap.find?_erase] at hfind
    split_ifs at hfind
    exact h.pending n' pr hfind
  · exact h.once
  · exact h.own
  · rcases h.kept p n' hreg with hdone | hfind | hfailed
    · exact Or.inl hdone
    · rw [SortedMap.find?_erase]
      by_cases heq : n' = n
      · exact Or.inr (Or.inr (Or.inl (congrArg _ heq)))
      · rw [if_neg heq]
        exact Or.inr (Or.inl hfind)
    · exact Or.inr (Or.inr (Or.inr hfailed))
  · rw [SortedMap.find?_erase]
    rcases hn' with heq | hold
    · obtain rfl := Event.failed.inj heq
      exact ⟨if_pos rfl, hnumbered, hsent⟩
    · obtain ⟨hnone, hrest⟩ := h.failed n' hold
      refine ⟨?_, hrest⟩
      split_ifs
      · rfl
      · exact hnone
  · exact h.sent

/-- A number that was never registered is not in the table. -/
theorem TableInv.find?_none (h : TableInv s) (hreg : ∀ p, .registered p n ∉ s.log) :
    s.pendingResponses.find? n = none := by
  cases hfind : s.pendingResponses.find? n with
  | none => rfl
  | some pr => exact absurd (h.pending n pr hfind).2.1 (hreg _)

/-- A number that is not positive is refused before the table. -/
theorem TableInv.refuse (h : TableInv s) (hnumbered : .numbered n ∈ s.log)
    (hsent : .sent n ∉ s.log) (hreg : ∀ p, .registered p n ∉ s.log) :
    TableInv (s.record (.failed n)) := by
  have herase := h.erase hnumbered hsent
  rwa [erasePendingResponse, SortedMap.erase_of_find?_none (h.find?_none hreg)] at herase

theorem TableInv.register (h : TableInv s) (hnumbered : .numbered n ∈ s.log)
    (hreg : ∀ p, .registered p n ∉ s.log) (hfailed : .failed n ∉ s.log) :
    TableInv (s.registerPendingResponse n) := by
  have hnew : ∀ n', .registered s.promises n' ∉ s.log := fun n' hmem =>
    lt_irrefl _ (h.registered _ _ hmem).2
  have hopen : ∀ outcome, .fulfilled s.promises outcome ∉ s.log := fun outcome hmem => by
    obtain ⟨n', hmem', -⟩ := h.own _ _ hmem
    exact hnew n' hmem'
  refine ⟨fun p n' hmem => ?_, fun p n₁ n₂ h₁ h₂ => ?_, fun p₁ p₂ n' h₁ h₂ => ?_,
    fun n' pr hfind => ?_, ?_, fun p outcome hmem => ?_, fun p n' hmem => ?_, fun n' hmem => ?_,
    fun n' hmem => ?_⟩
  all_goals simp only [registerPendingResponse, List.mem_cons, Event.registered.injEq, reduceCtorEq,
    false_or] at *
  · rcases hmem with ⟨rfl, rfl⟩ | hold
    · exact ⟨hnumbered, Nat.lt_succ_self _⟩
    · exact ⟨(h.registered p n' hold).1, Nat.lt_succ_of_lt (h.registered p n' hold).2⟩
  · rcases h₁ with ⟨rfl, rfl⟩ | h₁ <;> rcases h₂ with ⟨hp, rfl⟩ | h₂
    · rfl
    · exact absurd h₂ (hnew _)
    · exact absurd (hp ▸ h₁) (hnew _)
    · exact h.promise p n₁ n₂ h₁ h₂
  · rcases h₁ with ⟨rfl, rfl⟩ | h₁ <;> rcases h₂ with ⟨rfl, hn⟩ | h₂
    · rfl
    · exact absurd h₂ (hreg _)
    · exact absurd (hn ▸ h₁) (hreg _)
    · exact h.number p₁ p₂ n' h₁ h₂
  · rw [SortedMap.find?_insert] at hfind
    split_ifs at hfind with heq
    · obtain rfl := Option.some.inj hfind
      exact ⟨rfl, Or.inl ⟨rfl, heq⟩, hopen⟩
    · obtain ⟨hcompleted, hmem, hnone⟩ := h.pending n' pr hfind
      exact ⟨hcompleted, Or.inr hmem, hnone⟩
  · exact h.once
  · obtain ⟨n', hmem', hfor⟩ := h.own p outcome hmem
    exact ⟨n', Or.inr hmem', hfor⟩
  · rw [SortedMap.find?_insert]
    rcases hmem with ⟨rfl, rfl⟩ | hold
    · exact Or.inr (Or.inl (if_pos rfl))
    · have hne : n' ≠ n := fun heq => hreg p (heq ▸ hold)
      rw [if_neg hne]
      exact h.kept p n' hold
  · obtain ⟨hnone, hrest⟩ := h.failed n' hmem
    have hne : n' ≠ n := fun heq => hfailed (heq ▸ hmem)
    rw [SortedMap.find?_insert, if_neg hne]
    exact ⟨hnone, hrest⟩
  · obtain ⟨p, hold⟩ := h.sent n' hmem
    exact ⟨p, Or.inr hold⟩

/-- Requests leave the table, and `l` are the outcomes of their promises. -/
structure Completes (s s' : IPCClientEndpoint) (l : List (ℕ × Fulfilment)) : Prop where
  log : s'.log = l.map (fun o => .fulfilled o.1 o.2) ++ s.log
  promises : s'.promises = s.promises
  nodup : (l.map Prod.fst).Nodup
  out : ∀ o ∈ l, ∃ n, s.pendingResponses.find? n = some ⟨o.1, false⟩ ∧ Fulfilment.For n o.2 ∧
    s'.pendingResponses.find? n = none
  kept : ∀ n, s'.pendingResponses.find? n = s.pendingResponses.find? n ∨
    s'.pendingResponses.find? n = none ∧ ∀ pr, s.pendingResponses.find? n = some pr →
      ∃ outcome, (pr.promise, outcome) ∈ l

variable {l : List (ℕ × Fulfilment)}

theorem Completes.mem_log (hc : Completes s s' l) {ev : Event}
    (hev : ∀ p outcome, ev ≠ .fulfilled p outcome) : ev ∈ s'.log ↔ ev ∈ s.log := by
  rw [hc.log, List.mem_append, or_iff_right]
  intro hmem
  obtain ⟨o, -, rfl⟩ := List.mem_map.mp hmem
  exact hev _ _ rfl

theorem Completes.registered_mem (hc : Completes s s' l) :
    .registered p n ∈ s'.log ↔ .registered p n ∈ s.log :=
  hc.mem_log nofun

theorem Completes.fulfilled_mem (hc : Completes s s' l) {outcome : Fulfilment} :
    .fulfilled p outcome ∈ s'.log ↔ (p, outcome) ∈ l ∨ .fulfilled p outcome ∈ s.log := by
  rw [hc.log, List.mem_append, List.mem_map]
  simp

theorem Completes.find?_none (hc : Completes s s' l) (h : s.pendingResponses.find? n = none) :
    s'.pendingResponses.find? n = none := by
  rcases hc.kept n with heq | ⟨hnone, -⟩
  · rw [heq, h]
  · exact hnone

theorem Completes.find?_some (hc : Completes s s' l) {pr : PendingResponse}
    (h : s'.pendingResponses.find? n = some pr) : s.pendingResponses.find? n = some pr := by
  rcases hc.kept n with heq | ⟨hnone, -⟩
  · rwa [← heq]
  · rw [hnone] at h
    cases h

/-- What stays in the table is still open. -/
theorem Completes.pending (hc : Completes s s' l) (h : TableInv s) {pr : PendingResponse}
    (hfind : s'.pendingResponses.find? n = some pr) :
    pr.completed = false ∧ .registered pr.promise n ∈ s'.log ∧
      ∀ outcome, .fulfilled pr.promise outcome ∉ s'.log := by
  obtain ⟨hcompleted, hmem, hnone⟩ := h.pending n pr (hc.find?_some hfind)
  refine ⟨hcompleted, hc.registered_mem.mpr hmem, fun outcome hful => ?_⟩
  rcases hc.fulfilled_mem.mp hful with hin | hbefore
  · -- its promise would be in the table under a number that has left it
    obtain ⟨n', hfind', -, hgone⟩ := hc.out _ hin
    obtain rfl := h.promise _ n n' hmem (h.pending n' _ hfind').2.1
    rw [hgone] at hfind
    cases hfind
  · exact hnone outcome hbefore

theorem Completes.once (hc : Completes s s' l) (h : TableInv s) : fulfilments p s'.log ≤ 1 := by
  rw [hc.log, fulfilments_append]
  by_cases hmem : p ∈ l.map Prod.fst
  · obtain ⟨o, ho, rfl⟩ := List.mem_map.mp hmem
    obtain ⟨n, hfind, -⟩ := hc.out o ho
    rw [fulfilments_eq_zero (h.pending n _ hfind).2.2]
    exact List.nodup_iff_count_le_one.mp hc.nodup _
  · rw [List.count_eq_zero_of_not_mem hmem, Nat.zero_add]
    exact h.once p

theorem Completes.own (hc : Completes s s' l) (h : TableInv s) {outcome : Fulfilment}
    (hmem : .fulfilled p outcome ∈ s'.log) :
    ∃ n, .registered p n ∈ s'.log ∧ Fulfilment.For n outcome := by
  rcases hc.fulfilled_mem.mp hmem with hin | hbefore
  · obtain ⟨n, hfind, hfor, -⟩ := hc.out _ hin
    exact ⟨n, hc.registered_mem.mpr (h.pending n _ hfind).2.1, hfor⟩
  · obtain ⟨n, hreg, hfor⟩ := h.own p outcome hbefore
    exact ⟨n, hc.registered_mem.mpr hreg, hfor⟩

/-- A registered request is still in the table, or it is one of those that leave it now. -/
theorem Completes.registered_kept (hc : Completes s s' l) (h : TableInv s)
    (hreg : .registered p n ∈ s.log) : (∃ outcome, .fulfilled p outcome ∈ s'.log) ∨
      s'.pendingResponses.find? n = some ⟨p, false⟩ ∨ .failed n ∈ s'.log := by
  have hfailed : .failed n ∈ s'.log ↔ .failed n ∈ s.log := hc.mem_log nofun
  rw [hfailed]
  rcases h.kept p n hreg with ⟨outcome, hdone⟩ | hfind | hgone
  · exact Or.inl ⟨outcome, hc.fulfilled_mem.mpr (Or.inr hdone)⟩
  · rcases hc.kept n with heq | ⟨-, hdone⟩
    · exact Or.inr (Or.inl (heq.trans hfind))
    · obtain ⟨outcome, hin⟩ := hdone _ hfind
      exact Or.inl ⟨outcome, hc.fulfilled_mem.mpr (Or.inl hin)⟩
  · exact Or.inr (Or.inr hgone)

theorem TableInv.complete (h : TableInv s) (hc : Completes s s' l) : TableInv s' := by
  have hsent : ∀ {n}, .sent n ∈ s'.log ↔ .sent n ∈ s.log := hc.mem_log nofun
  have hfailed : ∀ {n}, .failed n ∈ s'.log ↔ .failed n ∈ s.log := hc.mem_log nofun
  have hnumbered : ∀ {n}, .numbered n ∈ s'.log ↔ .numbered n ∈ s.log := hc.mem_log nofun
  refine ⟨fun p n hmem => ?_, fun p n n' h₁ h₂ => ?_, fun p p' n h₁ h₂ => ?_,
    fun n pr hfind => hc.pending h hfind, fun p => hc.once h, fun p outcome hmem => hc.own h hmem,
    fun p n hmem => hc.registered_kept h (hc.registered_mem.mp hmem), fun n hmem => ?_, fun n hmem => ?_⟩
  · rw [hnumbered, hc.promises]
    exact h.registered p n (hc.registered_mem.mp hmem)
  · exact h.promise p n n' (hc.registered_mem.mp h₁) (hc.registered_mem.mp h₂)
  · exact h.number p p' n (hc.registered_mem.mp h₁) (hc.registered_mem.mp h₂)
  · obtain ⟨hnone, hnum, hns⟩ := h.failed n (hfailed.mp hmem)
    rw [hnumbered, hsent]
    exact ⟨hc.find?_none hnone, hnum, hns⟩
  · obtain ⟨p, hmem'⟩ := h.sent n (hsent.mp hmem)
    exact ⟨p, hc.registered_mem.mpr hmem'⟩

theorem TableInv.match (h : TableInv s) {data : List UInt8} (hfor : Fulfilment.For n (.message data)) :
    TableInv (s.tryMatchPendingResponse n data).1 := by
  rw [tryMatchPendingResponse]
  cases hfind : s.pendingResponses.find? n with
  | none => exact h
  | some pr =>
    obtain ⟨p, completed⟩ := pr
    obtain rfl : completed = false := (h.pending n _ hfind).1
    show TableInv ({ s with pendingResponses := s.pendingResponses.erase n }.record
      (.fulfilled p (.message data)))
    refine h.complete (l := [(p, .message data)])
      ⟨rfl, rfl, List.nodup_singleton _, ?_, fun n' => ?_⟩
    · rintro o ho
      obtain rfl := List.mem_singleton.mp ho
      refine ⟨n, hfind, hfor, ?_⟩
      simp only [record, SortedMap.find?_erase, if_true]
    · simp only [record, SortedMap.find?_erase]
      by_cases heq : n' = n
      · refine Or.inr ⟨if_pos heq, fun pr' hfind' => ?_⟩
        rw [heq, hfind] at hfind'
        obtain rfl := Option.some.inj hfind'
        exact ⟨_, List.mem_singleton.mpr rfl⟩
      · exact Or.inl (if_neg heq)

theorem TableInv.fail (h : TableInv s) : TableInv s.failPendingResponses := by
  have hmem : ∀ entry ∈ s.pendingResponses.entries, entry.2.completed = false ∧
      .registered entry.2.promise entry.1 ∈ s.log := fun entry hentry =>
    ⟨(h.pending _ _ ((SortedMap.find?_eq_some _ _ _).mpr hentry)).1,
      (h.pending _ _ ((SortedMap.find?_eq_some _ _ _).mpr hentry)).2.1⟩
  have hall : s.pendingResponses.entries.filter (fun entry => !entry.2.completed) =
      s.pendingResponses.entries := List.filter_eq_self.mpr fun entry hentry => by
    simp [(hmem entry hentry).1]
  refine h.complete (l := s.pendingResponses.entries.map fun entry => (entry.2.promise, .closed))
    ⟨?_, rfl, ?_, ?_, fun n => Or.inr ⟨SortedMap.find?_empty _, fun pr hfind => ?_⟩⟩
  · rw [failPendingResponses, hall, List.map_map]
    rfl
  · rw [List.map_map]
    refine List.Nodup.map_on ?_ s.pendingResponses.entries_nodup
    intro e he e' he' heq
    replace heq : e.2.promise = e'.2.promise := heq
    have hkey := h.promise _ _ _ (hmem e he).2 (heq ▸ (hmem e' he').2)
    exact Prod.ext hkey.symm (s.pendingResponses.key_unique he (hkey ▸ he'))
  · rintro o ho
    obtain ⟨entry, hentry, rfl⟩ := List.mem_map.mp ho
    refine ⟨entry.1, ?_, trivial, SortedMap.find?_empty _⟩
    rw [(SortedMap.find?_eq_some _ _ _).mpr hentry, ← (hmem entry hentry).1]
  · exact ⟨.closed, List.mem_map.mpr ⟨(n, pr), (SortedMap.find?_eq_some _ _ _).mp hfind, rfl⟩⟩

/-! ### The threads -/

/-- The number of the request that a thread is sending. -/
def Work.seqId : Work → Option ℤ
  | .register n | .load n | .sendmsg n | .erase n => some n
  | _ => none

/-- A thread that sends a request has it to itself, and is not done with it. Once the loop has ended,
    the channel is closed, and what was sent, or still may be, is not in the table. -/
structure ThreadInv (s : IPCClientEndpoint) (work : List Work) : Prop where
  nodup : (work.filterMap Work.seqId).Nodup
  sending : ∀ w ∈ work, ∀ n ∈ w.seqId,
    .numbered n ∈ s.log ∧ .sent n ∉ s.log ∧ .failed n ∉ s.log
  unregistered : ∀ n, .register n ∈ work → ∀ p, .registered p n ∉ s.log
  registered : ∀ w ∈ work, ∀ n ∈ w.seqId, w ≠ .register n → ∃ p, .registered p n ∈ s.log
  closed : .loopFail ∈ work ∨ s.loopEnded = true → s.handleValid = false
  ended : s.loopEnded = true → (∀ n, .sent n ∈ s.log → s.pendingResponses.find? n = none) ∧
    ∀ n, .sendmsg n ∈ work → s.pendingResponses.find? n = none

/-- The table and the threads. -/
structure Inv (s : IPCClientEndpoint) (work : List Work) : Prop where
  table : TableInv s
  threads : ThreadInv s work

variable {w w' : Work} {work rest new : List Work}

/-- A step that sends nothing: the table does not grow, and a closed channel stays closed. -/
structure Keeps (s s' : IPCClientEndpoint) : Prop where
  numbered : ∀ n, .numbered n ∈ s.log → .numbered n ∈ s'.log
  sent : ∀ n, .sent n ∈ s'.log ↔ .sent n ∈ s.log
  failed : ∀ n, .failed n ∈ s'.log ↔ .failed n ∈ s.log
  registered : ∀ p n, .registered p n ∈ s'.log ↔ .registered p n ∈ s.log
  pending : ∀ n, s.pendingResponses.find? n = none → s'.pendingResponses.find? n = none
  handle : s.handleValid = false → s'.handleValid = false

theorem Keeps.of_eq (hlog : s'.log = s.log) (hpending : s'.pendingResponses = s.pendingResponses)
    (hhandle : s.handleValid = false → s'.handleValid = false) : Keeps s s' := by
  refine ⟨fun n => ?_, fun n => ?_, fun n => ?_, fun p n => ?_, fun n => ?_, hhandle⟩
  · rw [hlog]
    exact id
  · rw [hlog]
  · rw [hlog]
  · rw [hlog]
  · rw [hpending]
    exact id

theorem keeps_record {ev : Event} (s : IPCClientEndpoint)
    (hev : (∃ n, ev = .numbered n) ∨ ∃ data, ev = .unsolicited data) : Keeps s (s.record ev) := by
  obtain ⟨n, rfl⟩ | ⟨data, rfl⟩ := hev <;>
    exact ⟨fun _ => List.mem_cons_of_mem _, by simp [record], by simp [record], by simp [record],
      fun _ => id, id⟩

theorem keeps_match (s : IPCClientEndpoint) (n : ℤ) (data : List UInt8) :
    Keeps s (s.tryMatchPendingResponse n data).1 := by
  have herase : ∀ n', s.pendingResponses.find? n' = none →
      (s.pendingResponses.erase n).find? n' = none := by
    intro n' hnone
    rw [SortedMap.find?_erase, hnone, ite_self]
  rw [tryMatchPendingResponse]
  cases s.pendingResponses.find? n with
  | none => exact .of_eq rfl rfl id
  | some pr =>
    by_cases hcompleted : pr.completed = true
    · simp only [hcompleted, if_true]
      exact ⟨fun _ => id, fun _ => Iff.rfl, fun _ => Iff.rfl, fun _ _ => Iff.rfl, herase, id⟩
    · simp only [hcompleted, if_false, Bool.false_eq_true]
      exact ⟨fun _ => List.mem_cons_of_mem _, by simp [record], by simp [record], by simp [record],
        herase, id⟩

theorem keeps_fail (s : IPCClientEndpoint) : Keeps s s.failPendingResponses := by
  have hold : ∀ {ev : Event}, (∀ p outcome, ev ≠ .fulfilled p outcome) →
      (ev ∈ s.failPendingResponses.log ↔ ev ∈ s.log) := by
    intro ev hev
    rw [failPendingResponses, List.mem_append, or_iff_right]
    intro hmem
    obtain ⟨entry, -, rfl⟩ := List.mem_map.mp hmem
    exact hev _ _ rfl
  exact ⟨fun _ h => (hold (by simp)).mpr h, fun _ => hold (by simp), fun _ => hold (by simp),
    fun _ _ => hold (by simp), fun _ _ => SortedMap.find?_empty _, id⟩

theorem ThreadInv.quiet (h : ThreadInv s (w :: rest)) (hkeeps : Keeps s s') (hw : w.seqId = none)
    (hnew : ∀ w' ∈ new, w'.seqId = none) (hclosed : .loopFail ∈ new → s'.handleValid = false)
    (hended : s'.loopEnded = true → s.loopEnded = true ∨
      w = .loopFail ∧ ∀ n, s'.pendingResponses.find? n = none) : ThreadInv s' (new ++ rest) := by
  have hrest : ∀ w' ∈ new ++ rest, ∀ n ∈ w'.seqId, w' ∈ rest := by
    intro w' hmem n hn
    rcases List.mem_append.mp hmem with hin | hin
    · rw [hnew w' hin] at hn
      cases hn
    · exact hin
  have hnone : new.filterMap Work.seqId = [] := List.filterMap_eq_nil_iff.mpr hnew
  refine ⟨?_, fun w' hmem n hn => ?_, fun n hmem p => ?_, fun w' hmem n hn hne => ?_, ?_,
    fun hend => ?_⟩
  · have hnodup := h.nodup
    rw [List.filterMap_cons, hw] at hnodup
    rwa [List.filterMap_append, hnone, List.nil_append]
  · obtain ⟨hnumbered, hsent, hfailed⟩ :=
      h.sending w' (List.mem_cons_of_mem _ (hrest w' hmem n hn)) n hn
    rw [hkeeps.sent, hkeeps.failed]
    exact ⟨hkeeps.numbered n hnumbered, hsent, hfailed⟩
  · rw [hkeeps.registered]
    exact h.unregistered n (List.mem_cons_of_mem _ (hrest _ hmem n rfl)) p
  · obtain ⟨p, hreg⟩ := h.registered w' (List.mem_cons_of_mem _ (hrest w' hmem n hn)) n hn hne
    exact ⟨p, (hkeeps.registered p n).mpr hreg⟩
  · rintro (hmem | hend)
    · rcases List.mem_append.mp hmem with hin | hin
      · exact hclosed hin
      · exact hkeeps.handle (h.closed (Or.inl (List.mem_cons_of_mem _ hin)))
    · rcases hended hend with hbefore | ⟨rfl, -⟩
      · exact hkeeps.handle (h.closed (Or.inr hbefore))
      · exact hkeeps.handle (h.closed (Or.inl (List.mem_cons_self ..)))
  · rcases hended hend with hbefore | ⟨-, hall⟩
    · obtain ⟨hsent, hsending⟩ := h.ended hbefore
      exact ⟨fun n hmem => hkeeps.pending n (hsent n ((hkeeps.sent n).mp hmem)), fun n hmem =>
        hkeeps.pending n (hsending n (List.mem_cons_of_mem _ (hrest _ hmem n rfl)))⟩
    · exact ⟨fun n _ => hall n, fun n _ => hall n⟩

/-- The number of a request is in the hands of one thread. -/
theorem ThreadInv.other (h : ThreadInv s (w :: rest)) (hw : w.seqId = some n) (hmem : w' ∈ rest)
    {n' : ℤ} (hn' : n' ∈ w'.seqId) : n' ≠ n := by
  have hnodup := h.nodup
  rw [List.filterMap_cons, hw, List.nodup_cons] at hnodup
  rintro rfl
  exact hnodup.1 (List.mem_filterMap.mpr ⟨w', hmem, hn'⟩)

/-- The thread goes on with the request. -/
theorem ThreadInv.relabel (h : ThreadInv s (w :: rest)) (hw : w.seqId = some n)
    (hw' : w'.seqId = some n) (hne : w ≠ .register n) (hne' : w' ≠ .register n)
    (hsend : w' = .sendmsg n → s.loopEnded = true → s.pendingResponses.find? n = none) :
    ThreadInv s (w' :: rest) := by
  have hown := h.sending w (List.mem_cons_self ..) n hw
  have hreg := h.registered w (List.mem_cons_self ..) n hw hne
  have hseq : ∀ {n'}, n' ∈ w'.seqId → n' = n := fun hn' =>
    (Option.some.inj (hw'.symm.trans hn')).symm
  refine ⟨?_, List.forall_mem_cons.mpr ⟨fun n' hn' => ?_, fun w'' hmem =>
      h.sending w'' (List.mem_cons_of_mem _ hmem)⟩, fun n' hmem => ?_,
    List.forall_mem_cons.mpr ⟨fun n' hn' _ => ?_, fun w'' hmem =>
      h.registered w'' (List.mem_cons_of_mem _ hmem)⟩, ?_, fun hend => ⟨(h.ended hend).1,
      fun n' hmem => ?_⟩⟩
  · have hnodup := h.nodup
    rw [List.filterMap_cons, hw] at hnodup
    rwa [List.filterMap_cons, hw']
  · rwa [hseq hn']
  · rcases List.mem_cons.mp hmem with heq | hold
    · have hn' : n' = n := hseq (heq ▸ rfl : w'.seqId = some n')
      exact absurd (hn' ▸ heq.symm) hne'
    · exact h.unregistered n' (List.mem_cons_of_mem _ hold)
  · rwa [hseq hn']
  · rintro (hmem | hend)
    · rcases List.mem_cons.mp hmem with rfl | hold
      · cases hw'
      · exact h.closed (Or.inl (List.mem_cons_of_mem _ hold))
    · exact h.closed (Or.inr hend)
  · rcases List.mem_cons.mp hmem with heq | hold
    · obtain rfl : n' = n := hseq (heq ▸ rfl)
      exact hsend heq.symm hend
    · exact (h.ended hend).2 n' (List.mem_cons_of_mem _ hold)

/-- The thread is done with the request. -/
theorem ThreadInv.leave (h : ThreadInv s (w :: rest)) (hw : w.seqId = some n)
    (hnumbered : ∀ n', .numbered n' ∈ s.log → .numbered n' ∈ s'.log)
    (hdone : ∀ n', n' ≠ n → (.sent n' ∈ s'.log ↔ .sent n' ∈ s.log) ∧
      (.failed n' ∈ s'.log ↔ .failed n' ∈ s.log))
    (hreg : ∀ p n', .registered p n' ∈ s'.log ↔ .registered p n' ∈ s.log)
    (hpending : ∀ n', s.pendingResponses.find? n' = none → s'.pendingResponses.find? n' = none)
    (hflags : s'.handleValid = s.handleValid ∧ s'.loopEnded = s.loopEnded)
    (hended : s.loopEnded = true → .sent n ∈ s'.log → s.pendingResponses.find? n = none) :
    ThreadInv s' rest := by
  refine ⟨?_, fun w' hmem n' hn' => ?_, fun n' hmem p => ?_, fun w' hmem n' hn' hne => ?_, ?_,
    fun hend => ?_⟩
  · have hnodup := h.nodup
    rw [List.filterMap_cons, hw] at hnodup
    exact (List.nodup_cons.mp hnodup).2
  · obtain ⟨hnum, hsent, hfailed⟩ := h.sending w' (List.mem_cons_of_mem _ hmem) n' hn'
    obtain ⟨hiff, hiff'⟩ := hdone n' (h.other hw hmem hn')
    rw [hiff, hiff']
    exact ⟨hnumbered n' hnum, hsent, hfailed⟩
  · rw [hreg]
    exact h.unregistered n' (List.mem_cons_of_mem _ hmem) p
  · obtain ⟨p, hmem'⟩ := h.registered w' (List.mem_cons_of_mem _ hmem) n' hn' hne
    exact ⟨p, (hreg p n').mpr hmem'⟩
  · rw [hflags.1, hflags.2]
    exact fun hcase => h.closed (hcase.imp_left (List.mem_cons_of_mem _))
  · rw [hflags.2] at hend
    refine ⟨fun n' hmem => hpending n' ?_, fun n' hmem => hpending n' ?_⟩
    · by_cases heq : n' = n
      · subst heq
        exact hended hend hmem
      · exact (h.ended hend).1 n' ((hdone n' heq).1.mp hmem)
    · exact (h.ended hend).2 n' (List.mem_cons_of_mem _ hmem)

theorem ThreadInv.number (h : ThreadInv s (.number :: rest)) (htable : TableInv s)
    (hfresh : .numbered n ∉ s.log) :
    ThreadInv (s.record (.numbered n)) (.register n :: rest) := by
  have hkeeps : Keeps s (s.record (.numbered n)) := keeps_record s (Or.inl ⟨n, rfl⟩)
  have hreg : ∀ p, .registered p n ∉ s.log := fun p hmem => hfresh (htable.registered p n hmem).1
  have hsent : .sent n ∉ s.log := fun hmem => (htable.sent n hmem).elim hreg
  have hfailed : .failed n ∉ s.log := fun hmem => hfresh (htable.failed n hmem).2.1
  refine ⟨?_, List.forall_mem_cons.mpr ⟨fun n' hn' => ?_, fun w' hmem n' hn' => ?_⟩,
    fun n' hmem p => ?_, List.forall_mem_cons.mpr ⟨fun n' hn' hne => ?_, fun w' hmem n' hn' hne => ?_⟩,
    fun hcase => ?_, fun hend => ⟨fun n' hmem => (h.ended hend).1 n' ((hkeeps.sent n').mp hmem),
      fun n' hmem => ?_⟩⟩
  · refine List.nodup_cons.mpr ⟨fun hmem => ?_, h.nodup⟩
    obtain ⟨w', hmem', hn'⟩ := List.mem_filterMap.mp hmem
    exact hfresh (h.sending w' (List.mem_cons_of_mem _ hmem') n hn').1
  · obtain rfl : n = n' := Option.some.inj hn'
    rw [hkeeps.sent, hkeeps.failed]
    exact ⟨List.mem_cons_self .., hsent, hfailed⟩
  · obtain ⟨hnum, hrest⟩ := h.sending w' (List.mem_cons_of_mem _ hmem) n' hn'
    rw [hkeeps.sent, hkeeps.failed]
    exact ⟨hkeeps.numbered n' hnum, hrest⟩
  · rw [hkeeps.registered]
    rcases List.mem_cons.mp hmem with heq | hold
    · obtain rfl := Work.register.inj heq
      exact hreg p
    · exact h.unregistered n' (List.mem_cons_of_mem _ hold) p
  · exact absurd (congrArg Work.register (Option.some.inj hn')) hne
  · obtain ⟨p, hold⟩ := h.registered w' (List.mem_cons_of_mem _ hmem) n' hn' hne
    exact ⟨p, (hkeeps.registered p n').mpr hold⟩
  · exact h.closed (hcase.imp_left fun hmem => by simpa using hmem)
  · exact (h.ended hend).2 n' (by simpa using hmem)

theorem ThreadInv.register (h : ThreadInv s (.register n :: rest)) :
    ThreadInv (s.registerPendingResponse n) (.load n :: rest) := by
  have hown := h.sending _ (List.mem_cons_self ..) n rfl
  have hother : ∀ w' ∈ rest, ∀ n' ∈ w'.seqId, n' ≠ n := fun w' hmem n' hn' =>
    h.other rfl hmem hn'
  have hkept : ∀ n', n' ≠ n → s.pendingResponses.find? n' = none →
      (s.registerPendingResponse n).pendingResponses.find? n' = none := by
    intro n' hne hnone
    rw [registerPendingResponse, SortedMap.find?_insert, if_neg hne, hnone]
  have hsent : ∀ n', .sent n' ∈ (s.registerPendingResponse n).log ↔ .sent n' ∈ s.log := by
    simp [registerPendingResponse]
  have hfailed : ∀ n', .failed n' ∈ (s.registerPendingResponse n).log ↔ .failed n' ∈ s.log := by
    simp [registerPendingResponse]
  have hreg : ∀ p n', .registered p n' ∈ (s.registerPendingResponse n).log ↔
      (p = s.promises ∧ n' = n) ∨ .registered p n' ∈ s.log := by
    simp [registerPendingResponse]
  refine ⟨h.nodup, List.forall_mem_cons.mpr ⟨fun n' hn' => ?_, fun w' hmem n' hn' => ?_⟩,
    fun n' hmem p => ?_, List.forall_mem_cons.mpr ⟨fun n' hn' _ => ?_, fun w' hmem n' hn' hne => ?_⟩,
    fun hcase => ?_, fun hend => ⟨fun n' hmem => ?_, fun n' hmem => ?_⟩⟩
  · obtain rfl : n = n' := Option.some.inj hn'
    rw [hsent, hfailed]
    exact ⟨List.mem_cons_of_mem _ hown.1, hown.2⟩
  · obtain ⟨hnum, hrest⟩ := h.sending w' (List.mem_cons_of_mem _ hmem) n' hn'
    rw [hsent, hfailed]
    exact ⟨List.mem_cons_of_mem _ hnum, hrest⟩
  · have hin : .register n' ∈ rest := by simpa using hmem
    rw [hreg, not_or]
    exact ⟨fun heq => hother _ hin n' rfl heq.2, h.unregistered n' (List.mem_cons_of_mem _ hin) p⟩
  · obtain rfl : n = n' := Option.some.inj hn'
    exact ⟨s.promises, (hreg _ _).mpr (Or.inl ⟨rfl, rfl⟩)⟩
  · obtain ⟨p, hold⟩ := h.registered w' (List.mem_cons_of_mem _ hmem) n' hn' hne
    exact ⟨p, (hreg _ _).mpr (Or.inr hold)⟩
  · exact h.closed (hcase.imp_left fun hmem => by simpa using hmem)
  · rw [hsent] at hmem
    exact hkept n' (fun heq => hown.2.1 (heq ▸ hmem)) ((h.ended hend).1 n' hmem)
  · have hin : .sendmsg n' ∈ rest := by simpa using hmem
    exact hkept n' (hother _ hin n' rfl) ((h.ended hend).2 n' (List.mem_cons_of_mem _ hin))

/-! ### Runs -/

theorem Inv.perm {work' : List Work} (h : Inv s work) (hperm : work.Perm work') : Inv s work' where
  table := h.table
  threads :=
    { nodup := (hperm.filterMap _).nodup_iff.mp h.threads.nodup
      sending := fun w hmem => h.threads.sending w (hperm.mem_iff.mpr hmem)
      unregistered := fun n hmem => h.threads.unregistered n (hperm.mem_iff.mpr hmem)
      registered := fun w hmem => h.threads.registered w (hperm.mem_iff.mpr hmem)
      closed := fun hcase => h.threads.closed (hcase.imp_left hperm.mem_iff.mpr)
      ended := fun hend => ⟨(h.threads.ended hend).1, fun n hmem =>
        (h.threads.ended hend).2 n (hperm.mem_iff.mpr hmem)⟩ }

theorem TableInv.congr (h : TableInv s) (hlog : s'.log = s.log)
    (hpending : s'.pendingResponses = s.pendingResponses) (hpromises : s'.promises = s.promises) :
    TableInv s' := by
  obtain ⟨h₁, h₂, h₃, h₄, h₅, h₆, h₇, h₈, h₉⟩ := h
  constructor <;> simp only [hlog, hpending, hpromises] <;> assumption

/-- A step that touches neither the table nor a request. -/
theorem Inv.quiet (h : Inv s (w :: rest)) (hlog : s'.log = s.log)
    (hpending : s'.pendingResponses = s.pendingResponses) (hpromises : s'.promises = s.promises)
    (hended : s'.loopEnded = s.loopEnded) (hhandle : s.handleValid = false → s'.handleValid = false)
    (hw : w.seqId = none) (hnew : ∀ w' ∈ new, w'.seqId = none)
    (hclosed : .loopFail ∈ new → s'.handleValid = false) : Inv s' (new ++ rest) :=
  ⟨h.table.congr hlog hpending hpromises,
    h.threads.quiet (.of_eq hlog hpending hhandle) hw hnew hclosed fun hend => Or.inl (hended ▸ hend)⟩

theorem messageHeader?_onMessage (s : IPCClientEndpoint) (data : List UInt8) :
    ((s.onMessage data).1 = s ∨ ∃ n, Fulfilment.For n (.message data) ∧
      (s.onMessage data).1 = (s.tryMatchPendingResponse n data).1) ∧
      ((s.onMessage data).2 = .loop ∨ (s.onMessage data).2 = .handler data) := by
  rw [onMessage]
  cases hheader : messageHeader? data with
  | none => exact ⟨Or.inl rfl, Or.inl rfl⟩
  | some header =>
    by_cases hseq : 0 < header.seqId.toInt
    · simp only [hseq, if_true]
      refine ⟨Or.inr ⟨_, ⟨header, hheader, rfl⟩, rfl⟩, ?_⟩
      split_ifs <;> simp
    · simp [hseq]

/-- The loop takes up a message. -/
theorem Inv.received {data : List UInt8} (h : Inv s (.received data :: rest)) :
    Inv (s.onMessage data).1 ((s.onMessage data).2 :: rest) := by
  obtain ⟨hstate, hwork⟩ := messageHeader?_onMessage s data
  have hseq : ∀ w' ∈ [(s.onMessage data).2], w'.seqId = none := by
    intro w' hmem
    rw [List.mem_singleton.mp hmem]
    rcases hwork with heq | heq <;> rw [heq] <;> rfl
  have hno : .loopFail ∉ [(s.onMessage data).2] := by
    intro hmem
    rcases hwork with heq | heq <;> rw [heq] at hmem <;> simp at hmem
  rcases hstate with heq | ⟨n, hfor, heq⟩
  · rw [heq]
    exact h.quiet rfl rfl rfl rfl id rfl hseq fun hmem => absurd hmem hno
  · rw [heq]
    refine ⟨h.table.match hfor, h.threads.quiet (keeps_match s n data) rfl hseq
      (fun hmem => absurd hmem hno) fun hend => Or.inl ?_⟩
    rw [tryMatchPendingResponse] at hend
    cases hfind : s.pendingResponses.find? n with
    | none => rwa [hfind] at hend
    | some pr =>
      rw [hfind] at hend
      by_cases hcompleted : pr.completed = true
      · simpa [hcompleted] using hend
      · simpa [hcompleted, record] using hend

/-- The number is entered in the table, or refused. -/
theorem Inv.register {e : Circumstances} (h : Inv s (.register n :: rest))
    (hexec : s.exec (.register n) e = some (s', new)) : Inv s' (new ++ rest) := by
  have hreg := h.threads.unregistered n (List.mem_cons_self ..)
  obtain ⟨hnumbered, hsent, hfailed⟩ := h.threads.sending _ (List.mem_cons_self ..) n rfl
  simp only [IPCClientEndpoint.exec] at hexec
  split_ifs at hexec with hpos
  · obtain ⟨rfl, rfl⟩ := Prod.mk.inj (Option.some.inj hexec)
    refine ⟨h.table.refuse hnumbered hsent hreg, h.threads.leave rfl
      (fun _ => List.mem_cons_of_mem _) (fun n' hne => ?_) (by simp [record]) (fun _ => id)
      ⟨rfl, rfl⟩ fun _ hmem => absurd (by simpa [record] using hmem) hsent⟩
    simp [record, hne]
  · obtain ⟨rfl, rfl⟩ := Prod.mk.inj (Option.some.inj hexec)
    exact ⟨h.table.register hnumbered hreg hfailed, h.threads.register⟩

theorem Inv.load (h : Inv s (.load n :: rest)) :
    Inv s ((if s.handleValid then .sendmsg n else .erase n) :: rest) := by
  refine ⟨h.table, ?_⟩
  by_cases hvalid : s.handleValid = true
  · rw [if_pos hvalid]
    -- the loop has not ended, since it closes the channel first
    exact h.threads.relabel rfl rfl nofun nofun fun _ hend =>
      absurd hvalid (by simp [h.threads.closed (Or.inr hend)])
  · rw [if_neg hvalid]
    exact h.threads.relabel rfl rfl nofun nofun nofun

theorem Inv.sendmsg {e : Circumstances} (h : Inv s (.sendmsg n :: rest))
    (hexec : s.exec (.sendmsg n) e = some (s', new)) : Inv s' (new ++ rest) := by
  obtain ⟨-, -, hfailed⟩ := h.threads.sending _ (List.mem_cons_self ..) n rfl
  have hreg := h.threads.registered _ (List.mem_cons_self ..) n rfl nofun
  simp only [IPCClientEndpoint.exec] at hexec
  split_ifs at hexec
  · obtain ⟨rfl, rfl⟩ := Prod.mk.inj (Option.some.inj hexec)
    refine ⟨h.table.record_sent hreg hfailed, h.threads.leave rfl
      (fun _ => List.mem_cons_of_mem _) (fun n' hne => ?_) (by simp [record]) (fun _ => id)
      ⟨rfl, rfl⟩ fun hend _ => (h.threads.ended hend).2 n (List.mem_cons_self ..)⟩
    simp [record, hne]
  · obtain ⟨rfl, rfl⟩ := Prod.mk.inj (Option.some.inj hexec)
    exact ⟨h.table, h.threads.relabel rfl rfl nofun nofun nofun⟩

/-- The request of a failed send leaves the table. -/
theorem Inv.erase (h : Inv s (.erase n :: rest)) : Inv (s.erasePendingResponse n) rest := by
  obtain ⟨hnumbered, hsent, -⟩ := h.threads.sending _ (List.mem_cons_self ..) n rfl
  refine ⟨h.table.erase hnumbered hsent, h.threads.leave rfl (fun _ => List.mem_cons_of_mem _)
    (fun n' hne => ?_) (by simp [erasePendingResponse, record]) (fun n' hnone => ?_) ⟨rfl, rfl⟩
    fun _ hmem => absurd (by simpa [erasePendingResponse, record] using hmem) hsent⟩
  · simp [erasePendingResponse, record, hne]
  · simp only [erasePendingResponse, record]
    rw [SortedMap.find?_erase, hnone, ite_self]

theorem Inv.receive {e : Circumstances} (h : Inv s (.receive :: rest))
    (hexec : s.exec .receive e = some (s', new)) : Inv s' (new ++ rest) := by
  simp only [IPCClientEndpoint.exec] at hexec
  cases hreceived : e.received with
  | none =>
    rw [hreceived] at hexec
    obtain ⟨rfl, rfl⟩ := Prod.mk.inj (Option.some.inj hexec)
    exact h.quiet rfl rfl rfl rfl id rfl (by simp [Work.seqId]) (by simp)
  | some data =>
    rw [hreceived] at hexec
    obtain ⟨rfl, rfl⟩ := Prod.mk.inj (Option.some.inj hexec)
    exact h.quiet rfl rfl rfl rfl id rfl (by simp [Work.seqId]) (by simp)

/-- The loop ends, and nothing is left in the table. -/
theorem Inv.loopFail (h : Inv s (.loopFail :: rest)) :
    Inv { s.failPendingResponses with loopEnded := true } rest := by
  have hkeeps := keeps_fail s
  show Inv _ ([] ++ rest)
  exact ⟨h.table.fail.congr rfl rfl rfl, h.threads.quiet
    ⟨hkeeps.numbered, hkeeps.sent, hkeeps.failed, hkeeps.registered, hkeeps.pending,
      hkeeps.handle⟩ rfl (by simp) (by simp)
    fun _ => Or.inr ⟨rfl, fun _ => SortedMap.find?_empty _⟩⟩

theorem Inv.exec {e : Circumstances} (h : Inv s (w :: rest)) (hok : FreshNumbers s w e)
    (hexec : s.exec w e = some (s', new)) : Inv s' (new ++ rest) := by
  cases w with
  | checkValid call | checkRunning call | loop =>
    obtain ⟨rfl, rfl⟩ := Prod.mk.inj (Option.some.inj hexec)
    refine h.quiet rfl rfl rfl rfl id rfl (fun w' hmem => ?_) fun hmem => ?_
    · split_ifs at hmem <;> simp_all [Work.seqId]
    · split_ifs at hmem <;> simp at hmem
  | number =>
    obtain ⟨rfl, rfl⟩ := Prod.mk.inj (Option.some.inj hexec)
    exact ⟨h.table.record_neutral (Or.inl ⟨_, rfl⟩), h.threads.number h.table (hok rfl)⟩
  | register n => exact h.register hexec
  | load n =>
    obtain ⟨rfl, rfl⟩ := Prod.mk.inj (Option.some.inj hexec)
    exact h.load
  | sendmsg n => exact h.sendmsg hexec
  | erase n =>
    obtain ⟨rfl, rfl⟩ := Prod.mk.inj (Option.some.inj hexec)
    exact h.erase
  | receive => exact h.receive hexec
  | received data =>
    obtain ⟨rfl, rfl⟩ := Prod.mk.inj (Option.some.inj hexec)
    exact h.received
  | handler data =>
    obtain ⟨rfl, rfl⟩ := Prod.mk.inj (Option.some.inj hexec)
    exact ⟨h.table.record_neutral (Or.inr ⟨_, rfl⟩), h.threads.quiet
      (keeps_record s (Or.inr ⟨_, rfl⟩)) rfl (by simp [Work.seqId]) (by simp) Or.inl⟩
  | loopStop | stop self =>
    obtain ⟨rfl, rfl⟩ := Prod.mk.inj (Option.some.inj hexec)
    exact h.quiet rfl rfl rfl rfl id rfl (by simp [Work.seqId]) (by simp)
  | loopClose | stopClose self | close =>
    obtain ⟨rfl, rfl⟩ := Prod.mk.inj (Option.some.inj hexec)
    exact h.quiet rfl rfl rfl rfl (fun _ => rfl) rfl (by simp [Work.seqId]) fun _ => rfl
  | stopJoin self | join =>
    simp only [IPCClientEndpoint.exec] at hexec
    split_ifs at hexec <;> obtain ⟨rfl, rfl⟩ := Prod.mk.inj (Option.some.inj hexec) <;>
      exact h.quiet rfl rfl rfl rfl id rfl (by simp [Work.seqId]) (by simp)
  | fail =>
    obtain ⟨rfl, rfl⟩ := Prod.mk.inj (Option.some.inj hexec)
    exact ⟨h.table.fail, h.threads.quiet (keeps_fail s) rfl (by simp) (by simp) Or.inl⟩
  | loopFail =>
    obtain ⟨rfl, rfl⟩ := Prod.mk.inj (Option.some.inj hexec)
    exact h.loopFail

theorem inv_init : Inv init [.loop] where
  table := tableInv_init
  threads :=
    { nodup := List.nodup_nil
      sending := fun w hmem n hn => by
        rw [List.mem_singleton.mp hmem] at hn
        cases hn
      unregistered := by simp
      registered := fun w hmem n hn => by
        rw [List.mem_singleton.mp hmem] at hn
        cases hn
      closed := by simp [init]
      ended := fun hend => nomatch hend }

/-- A thread that has no request yet. -/
theorem Inv.arrive (h : Inv s work) (hw : w.seqId = none) (hne : w ≠ .loopFail) :
    Inv s (w :: work) := by
  have hmem : ∀ {w' n}, w' ∈ w :: work → w'.seqId = some n → w' ∈ work := by
    intro w' n hin hn
    rcases List.mem_cons.mp hin with rfl | hin
    · rw [hw] at hn
      cases hn
    · exact hin
  refine ⟨h.table, ?_, fun w' hin n hn => h.threads.sending w' (hmem hin hn) n hn,
    fun n hin => h.threads.unregistered n (hmem hin rfl),
    fun w' hin n hn => h.threads.registered w' (hmem hin hn) n hn, fun hcase => ?_,
    fun hend => ⟨(h.threads.ended hend).1, fun n hin => (h.threads.ended hend).2 n (hmem hin rfl)⟩⟩
  · rw [List.filterMap_cons, hw]
    exact h.threads.nodup
  · refine h.threads.closed (hcase.imp_left fun hin => ?_)
    exact (List.mem_cons.mp hin).resolve_left (Ne.symm hne)

/-- What has been sent and is no longer in the table has had its answer. -/
theorem Inv.served (h : Inv s work) : Served s where
  number := h.table.promise
  once := h.table.once
  own := h.table.own
  failed n hmem := (h.table.failed n hmem).1
  ended hend n hmem := by
    have hnone := (h.threads.ended hend).1 n hmem
    obtain ⟨p, hreg⟩ := h.table.sent n hmem
    refine ⟨hnone, p, hreg, ?_⟩
    rcases h.table.kept p n hreg with hdone | hfind | hfailed
    · exact hdone
    · rw [hnone] at hfind
      cases hfind
    · exact absurd hmem (h.table.failed n hfailed).2.2

/-- In every run of an endpoint that has been connected: threads that send requests, messages of any
    kind that come in, sends that fail, and the connection lost or closed at any point. -/
theorem responses_served {c : Workers.Config IPCClientEndpoint Work}
    (hrun : Relation.ReflTransGen (Workers.Step system FreshNumbers fun _ _ => True)
      ⟨init, [.loop]⟩ c) : Served c.shared := by
  have hinv : Inv c.shared c.work := Workers.invariant (fun _ _ _ hperm h => h.perm hperm)
    (fun _ _ _ _ _ _ h hok hexec => h.exec hok hexec) (fun s work a s' new h _ harrive => by
      cases a <;> cases harrive <;> exact h.arrive rfl nofun) hrun inv_init
  exact hinv.served

/-- The response to request 5. -/
def response5 : List UInt8 :=
  IPCPacketHeader.codec.encode
    ⟨kIPCPacketMagic, kIPCPacketWireVersion, 0, IPCMessageType.GetUsageResponseLegacy.value, 0, 5, 0, 7⟩

/-- A thread starts a request and enters its promise. -/
def entered (seqId : ℤ) : List (Workers.Choice Circumstances Arrival) :=
  .arrive (.sendMessageTrackResponse ⟨false, false, 28⟩) ::
    List.replicate 4 (.work 0 ⟨seqId, true, none⟩)

/-- Request 5 is answered before its thread is back from sending, request 6 is sent, and the
    connection is lost before request 7 is. -/
def threeRequests : List (Workers.Choice Circumstances Arrival) :=
  entered 5 ++ [.work 0 ⟨0, true, none⟩, .work 1 ⟨0, true, none⟩, .work 1 ⟨0, true, some response5⟩,
    .work 1 ⟨0, true, none⟩, .work 0 ⟨0, true, none⟩] ++
  entered 6 ++ List.replicate 2 (.work 0 ⟨0, true, none⟩) ++
  entered 7 ++ List.replicate 5 (.work 1 ⟨0, true, none⟩) ++
    List.replicate 2 (.work 0 ⟨0, true, none⟩)

theorem responses_served_three_requests : ∃ c, Workers.play system FreshNumbers (fun _ _ => True)
      ⟨init, [.loop]⟩ threeRequests = some c ∧ c.shared.loopEnded = true ∧ c.work = [] ∧
      .fulfilled 0 (.message response5) ∈ c.shared.log ∧ .sent 6 ∈ c.shared.log ∧
      .fulfilled 1 .closed ∈ c.shared.log ∧ .failed 7 ∈ c.shared.log ∧ Served c.shared := by
  have hplay : ∃ c, Workers.play system FreshNumbers (fun _ _ => True) ⟨init, [.loop]⟩
      threeRequests = some c ∧ c.shared.loopEnded = true ∧ c.work = [] ∧
      .fulfilled 0 (.message response5) ∈ c.shared.log ∧ .sent 6 ∈ c.shared.log ∧
      .fulfilled 1 .closed ∈ c.shared.log ∧ .failed 7 ∈ c.shared.log :=
    ⟨_, rfl, by decide +kernel, by decide +kernel, by decide +kernel, by decide +kernel,
      by decide +kernel, by decide +kernel⟩
  obtain ⟨c, hc, hended, hwork, hresponse, hsent, hclosed, hfailed⟩ := hplay
  exact ⟨c, hc, hended, hwork, hresponse, hsent, hclosed, hfailed,
    responses_served (Workers.play_run hc)⟩

end IPCClientEndpoint
end DxRt
