import DxRt.Lib.Run
import DxRt.Lib.Trace

/-! lib/device_pool/device_dispatcher.cpp: `DeviceDispatcher`, the threads that listen to a device.

    Three threads wait for the responses of the NPU, one for each DMA channel, and one thread waits
    for events. They read the callbacks without a lock, so the callbacks belong in place before the
    threads start; `ServiceDevice::Identify` starts the threads with callbacks that are still empty,
    and the service sets them later. A step touches at most one of the shared flags, the driver or a
    callback. -/

namespace DxRt

def DX_RECOVERY_STARTED : ℕ := 1
def DX_RECOVERY_DONE : ℕ := 2
def DX_RECOVERY_FW_HANG : ℕ := 3
def DX_RECOVERY_PERM_FAIL : ℕ := 4

def DX_RECOVERY_REASON_NONE : ℕ := 0
def DX_RECOVERY_REASON_LINK_FLAP : ℕ := 1
def DX_RECOVERY_REASON_CPU_RESET : ℕ := 3

namespace DeviceDispatcher

abbrev kResponseChannels : ℕ := 3

/-- The values of `dxrt_server_err_t` the dispatcher reports. -/
inductive ServerErr where
  | needDevRecovery
  | deviceResponseFault
  | deviceEventFault
  deriving DecidableEq

/-- What `ResponseLoop` reads of a `dxrt_response_t`. -/
structure Response where
  reqId : ℕ
  infTime : ℕ
  status : ℤ
  procId : ℕ
  dmaCh : ℤ
  deriving DecidableEq

def Response.errCode (r : Response) : ℕ := (BitVec.ofInt 32 r.status).toNat

def Response.pid (r : Response) : ℤ := (BitVec.ofNat 32 r.procId).toInt

/-- DMA failures, a timeout of the firmware, and DMA aborts. -/
def isRecoverable (errCode : ℕ) : Bool :=
  (100 ≤ errCode && errCode < 200) || errCode == 300 || (400 ≤ errCode && errCode < 500)

/-- The response is for the scheduler. -/
def Response.isDeliverable (r : Response) : Bool :=
  r.status == 0 && (0 ≤ r.dmaCh && r.dmaCh < kResponseChannels) && 0 < r.pid

/-- A status that ends the channel, and leaves the recovery to `EventLoop`. -/
def Response.deferred (r : Response) : Bool := r.status != 0 && isRecoverable r.errCode

/-- A status that ends the process. -/
def Response.fatal (r : Response) : Bool := r.status != 0 && !isRecoverable r.errCode

structure ThrotInfo where
  ntfyCode : ℕ
  npuId : ℕ
  throtVoltage : ℕ × ℕ
  throtFreq : ℕ × ℕ
  throtTemper : ℕ
  deriving DecidableEq

/-- A `dx_pcie_dev_event_t`: the type, with what the loop reads of the union. -/
inductive Event where
  | error (errCode : ℕ)
  | notifyThrot (info : ThrotInfo)
  | recovery (action reason : ℕ)
  | other
  deriving DecidableEq

def isDriverOwnedRecoveryReason (reason : ℕ) : Bool :=
  reason == DX_RECOVERY_REASON_LINK_FLAP || reason == DX_RECOVERY_REASON_CPU_RESET

inductive Thread where
  | channel (ch : Fin kResponseChannels)
  | event
  deriving DecidableEq

/-- What a thread does to the outside, or gets from it. -/
inductive Entry where
  /-- `DXRT_CMD_NPU_RUN_RESP` has returned 0. -/
  | received (r : Response)
  | timed (dmaCh : ℤ) (infTime : ℕ)
  /-- `_onResponse`. -/
  | responded (r : Response)
  | dump
  /-- `DXRT_CMD_EVENT` has returned 0. -/
  | event (e : Event)
  /-- `_onError`. -/
  | errored (err : ServerErr) (errCode : ℕ)
  /-- `_onThrottle`. -/
  | throttled (info : ThrotInfo)
  /-- `_recoveryAdapter->PauseForRecovery`. -/
  | pausing (errCode : ℕ)
  /-- `_onRecovery`. -/
  | recovering (errCode : ℕ)
  /-- `DXRT_CMD_RECOVERY` and what it has returned. -/
  | recovery (ret : ℤ)
  | identify (ret : ℤ)
  | resumed
  | recoveryFailed
  | quickExit
  | abort
  deriving DecidableEq

def Entry.received? : Entry → Option Response
  | .received r => some r
  | _ => none

def Entry.responded? : Entry → Option Response
  | .responded r => some r
  | _ => none

/-- Which callbacks are set. -/
structure Callbacks where
  onResponse : Bool
  onError : Bool
  onRecovery : Bool
  onThrottle : Bool
  recoveryAdapter : Bool
  deriving DecidableEq

/-- Where `ResponseLoop` is: at its two tests of `_stop`, in `Process`, before `_onResponse`, and in
    the steps of the fatal path. -/
inductive Channel where
  | head
  | waiting
  | returned (r : Response)
  | handling (r : Response)
  | timed (r : Response)
  | stopping (r : Response)
  | blocking (r : Response)
  | reporting (r : Response)
  | asserting
  | ended
  deriving DecidableEq

/-- What `EventLoop` does after `_onError`. -/
inductive After where
  | exit
  | recover
  deriving DecidableEq

/-- Where `EventLoop` is, with `TriggerRecovery` from `pausing` to `resuming`. -/
inductive EventLoop where
  | head
  | waiting
  | returned (e : Event)
  | reporting (err : ServerErr) (errCode : ℕ) (after : After)
  | throttling (info : ThrotInfo)
  /-- At `DXRT_CMD_RECOVERY` of an error that is not recoverable. -/
  | resetting
  | pausing (errCode : ℕ)
  /-- In `PauseForRecovery`. -/
  | draining
  | recovering
  | identifying
  | failing
  | resuming
  | exiting
  | aborting
  | ended
  deriving DecidableEq

/-- The dispatcher; the latest entry of the log is the first. -/
structure State where
  stop : Bool
  isBlocked : Bool
  callbacks : Callbacks
  channels : Fin kResponseChannels → Channel
  eventLoop : EventLoop
  driverOwnedRecoveryActive : Bool
  driverOwnedRecoveryReason : ℕ
  exited : Bool
  log : List (Thread × Entry)

/-- What the driver and the adapter answer, for the calls that have an answer. -/
structure Reply where
  ret : ℤ
  response : Response
  event : Event
  pauseOk : Bool

inductive Call where
  | setResponseCallback
  | setErrorCallback
  | setRecoveryCallback
  | setThrottleCallback
  | setRecoveryAdapter
  | requestStop
  deriving DecidableEq

inductive Actor where
  | thread (t : Thread) (reply : Reply)
  | call (c : Call)

namespace State

def emit (s : State) (t : Thread) (e : Entry) : State := { s with log := (t, e) :: s.log }

def emitIf (s : State) (set : Bool) (t : Thread) (e : Entry) : State :=
  if set then s.emit t e else s

def setChannel (s : State) (ch : Fin kResponseChannels) (c : Channel) : State :=
  { s with channels := Function.update s.channels ch c }

def setEvent (s : State) (c : EventLoop) : State := { s with eventLoop := c }

/-- The process is over. -/
def exit (s : State) (t : Thread) (e : Entry) : State := { s.emit t e with exited := true }

/-- `ResponseLoop`. -/
def responseLoop (s : State) (ch : Fin kResponseChannels) (reply : Reply) : State :=
  let t := Thread.channel ch
  match s.channels ch with
  | .head => s.setChannel ch (if s.stop then .ended else .waiting)
  | .waiting =>
    if reply.ret ≠ 0 then s.setChannel ch .head
    else (s.emit t (.received reply.response)).setChannel ch (.returned reply.response)
  | .returned r => s.setChannel ch (if s.stop then .head else .handling r)
  | .handling r =>
    if r.status ≠ 0 then
      if isRecoverable r.errCode then { s with isBlocked := true }.setChannel ch .ended
      else (s.emit t .dump).setChannel ch (.stopping r)
    else if 0 ≤ r.dmaCh ∧ r.dmaCh < kResponseChannels then
      (s.emit t (.timed r.dmaCh r.infTime)).setChannel ch (.timed r)
    else s.setChannel ch .head
  -- a process id of zero is no error on Windows; a negative one is logged
  | .timed r =>
    (s.emitIf (0 < r.pid && s.callbacks.onResponse) t (.responded r)).setChannel ch .head
  | .stopping r => { s with stop := true }.setChannel ch (.blocking r)
  | .blocking r => { s with isBlocked := true }.setChannel ch (.reporting r)
  | .reporting r =>
    (s.emitIf s.callbacks.onError t (.errored .deviceResponseFault r.errCode)).setChannel ch
      .asserting
  | .asserting => s.exit t .abort
  | .ended => s

/-- `EventLoop` with an event. -/
def handleEvent (s : State) : Event → State
  | .recovery action reason =>
    if action = DX_RECOVERY_FW_HANG ∨ action = DX_RECOVERY_PERM_FAIL then
      s.setEvent (.reporting .deviceEventFault reason .exit)
    else if isDriverOwnedRecoveryReason reason then
      if action = DX_RECOVERY_STARTED then
        { s with driverOwnedRecoveryReason := reason, driverOwnedRecoveryActive := true }.setEvent
          (.reporting .needDevRecovery reason .exit)
      else if action = DX_RECOVERY_DONE then
        { s with driverOwnedRecoveryReason := reason, driverOwnedRecoveryActive := false }.setEvent
          .head
      else { s with driverOwnedRecoveryReason := reason }.setEvent .head
    else s.setEvent .head
  | .error errCode =>
    if errCode = 0 then s.setEvent .head
    else if isRecoverable errCode then
      -- a user-space recovery would conflict with the one of the kernel
      if s.driverOwnedRecoveryActive then s.setEvent (.reporting .deviceEventFault errCode .exit)
      else s.setEvent (.pausing errCode)
    else s.setEvent (.reporting .deviceEventFault errCode .recover)
  | .notifyThrot info => s.setEvent (.throttling info)
  | .other => s.setEvent .head

/-- `EventLoop` and `TriggerRecovery`. -/
def stepEvent (s : State) (reply : Reply) : State :=
  match s.eventLoop with
  | .head => s.setEvent (if s.stop then .ended else .waiting)
  | .waiting =>
    if reply.ret ≠ 0 then s.setEvent .head
    else (s.emit .event (.event reply.event)).setEvent (.returned reply.event)
  | .returned e => s.handleEvent e
  | .reporting err errCode after =>
    (s.emitIf s.callbacks.onError .event (.errored err errCode)).setEvent
      (match after with | .exit => .exiting | .recover => .resetting)
  | .throttling info =>
    (s.emitIf s.callbacks.onThrottle .event (.throttled info)).setEvent .head
  | .resetting => (s.emit .event (.recovery reply.ret)).setEvent .aborting
  | .pausing errCode =>
    if s.callbacks.recoveryAdapter then (s.emit .event (.pausing errCode)).setEvent .draining
    else (s.emitIf s.callbacks.onRecovery .event (.recovering errCode)).setEvent .recovering
  | .draining => s.setEvent (if reply.pauseOk then .recovering else .aborting)
  | .recovering =>
    (s.emit .event (.recovery reply.ret)).setEvent
      (if reply.ret < 0 then .failing else .identifying)
  | .identifying =>
    (s.emit .event (.identify reply.ret)).setEvent (if reply.ret ≠ 0 then .failing else .resuming)
  | .failing =>
    (s.emitIf s.callbacks.recoveryAdapter .event .recoveryFailed).setEvent .aborting
  | .resuming => (s.emitIf s.callbacks.recoveryAdapter .event .resumed).setEvent .exiting
  | .exiting => s.exit .event .quickExit
  | .aborting => s.exit .event .abort
  | .ended => s

def call (s : State) : Call → State
  | .setResponseCallback => { s with callbacks.onResponse := true }
  | .setErrorCallback => { s with callbacks.onError := true }
  | .setRecoveryCallback => { s with callbacks.onRecovery := true }
  | .setThrottleCallback => { s with callbacks.onThrottle := true }
  | .setRecoveryAdapter => { s with callbacks.recoveryAdapter := true }
  | .requestStop => { s with stop := true }

def exec (s : State) : Actor → State
  | .thread (.channel ch) reply => if s.exited then s else s.responseLoop ch reply
  | .thread .event reply => if s.exited then s else s.stepEvent reply
  | .call c => if s.exited then s else s.call c

/-- After `StartThreads`. -/
def init (callbacks : Callbacks) : State where
  stop := false
  isBlocked := false
  callbacks := callbacks
  channels _ := .head
  eventLoop := .head
  driverOwnedRecoveryActive := false
  driverOwnedRecoveryReason := DX_RECOVERY_REASON_NONE
  exited := false
  log := []

def Step (s t : State) : Prop := ∃ a, t = s.exec a

variable {s t : State} {ch : Fin kResponseChannels} {r : Response} {x : Thread}

/-! ### One step -/

/-- What a thread has done and got, latest first. -/
def entries (s : State) (x : Thread) : List Entry :=
  s.log.filterMap fun e => if e.1 = x then some e.2 else none

theorem entries_emit_self (e : Entry) : (s.emit x e).entries x = e :: s.entries x := by
  simp [entries, emit]

theorem entries_emit_ne {y : Thread} (h : y ≠ x) (e : Entry) :
    (s.emit y e).entries x = s.entries x := by
  simp [entries, emit, h]

theorem setChannel_self (c : Channel) : (s.setChannel ch c).channels ch = c := by
  simp [setChannel]

theorem setChannel_ne {k : Fin kResponseChannels} (h : ch ≠ k) (c : Channel) :
    (s.setChannel k c).channels ch = s.channels ch := by
  simp [setChannel, h]

/-- A callback is not taken back. -/
structure Kept (c d : Callbacks) : Prop where
  onResponse : c.onResponse = true → d.onResponse = true
  onError : c.onError = true → d.onError = true
  onRecovery : c.onRecovery = true → d.onRecovery = true
  recoveryAdapter : c.recoveryAdapter = true → d.recoveryAdapter = true

theorem Kept.refl (c : Callbacks) : Kept c c := ⟨id, id, id, id⟩

/-- What a step of another thread, or a call, leaves of a response thread. -/
structure Beside (ch : Fin kResponseChannels) (s t : State) : Prop where
  channel : t.channels ch = s.channels ch
  entries : t.entries (.channel ch) = s.entries (.channel ch)
  stop : s.stop = true → t.stop = true

theorem Beside.refl (s : State) : Beside ch s s := ⟨rfl, rfl, id⟩

theorem Beside.setChannel {k : Fin kResponseChannels} (h : Beside ch s t) (hne : ch ≠ k)
    (c : Channel) : Beside ch s (t.setChannel k c) :=
  ⟨(setChannel_ne hne c).trans h.channel, h.entries, h.stop⟩

theorem Beside.setEvent (h : Beside ch s t) (c : EventLoop) : Beside ch s (t.setEvent c) :=
  ⟨h.channel, h.entries, h.stop⟩

theorem Beside.emit (h : Beside ch s t) (hne : x ≠ .channel ch) (e : Entry) :
    Beside ch s (t.emit x e) :=
  ⟨h.channel, (entries_emit_ne hne e).trans h.entries, h.stop⟩

theorem Beside.emitIf (h : Beside ch s t) (hne : x ≠ .channel ch) (b : Bool) (e : Entry) :
    Beside ch s (t.emitIf b x e) := by
  cases b with
  | false => exact h
  | true => exact h.emit hne e

theorem Beside.exit (h : Beside ch s t) (hne : x ≠ .channel ch) (e : Entry) :
    Beside ch s (t.exit x e) :=
  ⟨h.channel, (entries_emit_ne hne e).trans h.entries, h.stop⟩

theorem responseLoop_beside {k : Fin kResponseChannels} (hne : ch ≠ k) (reply : Reply) :
    Beside ch s (s.responseLoop k reply) := by
  have hthread : Thread.channel k ≠ .channel ch := fun h => hne (Thread.channel.inj h).symm
  have hrefl : Beside ch s s := .refl s
  unfold responseLoop
  cases s.channels k with
  | head => exact hrefl.setChannel hne _
  | waiting =>
    dsimp only
    split_ifs
    · exact hrefl.setChannel hne _
    · exact (hrefl.emit hthread _).setChannel hne _
  | returned r => exact hrefl.setChannel hne _
  | handling r =>
    dsimp only
    split_ifs
    · exact (⟨rfl, rfl, id⟩ : Beside ch s { s with isBlocked := true }).setChannel hne _
    · exact (hrefl.emit hthread _).setChannel hne _
    · exact (hrefl.emit hthread _).setChannel hne _
    · exact hrefl.setChannel hne _
  | timed r => exact (hrefl.emitIf hthread _ _).setChannel hne _
  | stopping r =>
    exact (⟨rfl, rfl, fun _ => rfl⟩ : Beside ch s { s with stop := true }).setChannel hne _
  | blocking r => exact (⟨rfl, rfl, id⟩ : Beside ch s { s with isBlocked := true }).setChannel hne _
  | reporting r => exact (hrefl.emitIf hthread _ _).setChannel hne _
  | asserting => exact hrefl.exit hthread _
  | ended => exact hrefl

theorem handleEvent_beside (e : Event) : Beside ch s (s.handleEvent e) := by
  cases e with
  | error errCode =>
    simp only [handleEvent]
    split_ifs <;> exact ⟨rfl, rfl, id⟩
  | notifyThrot info => exact ⟨rfl, rfl, id⟩
  | recovery action reason =>
    simp only [handleEvent]
    split_ifs <;> exact ⟨rfl, rfl, id⟩
  | other => exact ⟨rfl, rfl, id⟩

theorem stepEvent_beside (reply : Reply) : Beside ch s (s.stepEvent reply) := by
  have hthread : Thread.event ≠ .channel ch := Thread.noConfusion
  have hrefl : Beside ch s s := .refl s
  unfold stepEvent
  cases s.eventLoop with
  | head => exact hrefl.setEvent _
  | waiting =>
    dsimp only
    split_ifs
    · exact hrefl.setEvent _
    · exact (hrefl.emit hthread _).setEvent _
  | returned e => exact handleEvent_beside e
  | reporting err errCode after => exact (hrefl.emitIf hthread _ _).setEvent _
  | throttling info => exact (hrefl.emitIf hthread _ _).setEvent _
  | resetting => exact (hrefl.emit hthread _).setEvent _
  | pausing errCode =>
    dsimp only
    split_ifs
    · exact (hrefl.emit hthread _).setEvent _
    · exact (hrefl.emitIf hthread _ _).setEvent _
  | draining => exact hrefl.setEvent _
  | recovering => exact (hrefl.emit hthread _).setEvent _
  | identifying => exact (hrefl.emit hthread _).setEvent _
  | failing => exact (hrefl.emitIf hthread _ _).setEvent _
  | resuming => exact (hrefl.emitIf hthread _ _).setEvent _
  | exiting => exact hrefl.exit hthread _
  | aborting => exact hrefl.exit hthread _
  | ended => exact hrefl

/-- A step is one of the response thread `ch`, or it leaves the thread as it was. -/
theorem Step.beside (h : Step s t) (ch : Fin kResponseChannels) :
    (∃ reply, t = s.responseLoop ch reply) ∨ Beside ch s t := by
  obtain ⟨a, rfl⟩ := h
  cases a with
  | thread x reply =>
    cases x with
    | channel k =>
      simp only [exec]
      split_ifs
      · exact .inr (.refl s)
      · by_cases hne : ch = k
        · exact .inl ⟨reply, by rw [hne]⟩
        · exact .inr (responseLoop_beside hne reply)
    | event =>
      simp only [exec]
      split_ifs
      · exact .inr (.refl s)
      · exact .inr (stepEvent_beside reply)
  | call c =>
    simp only [exec]
    split_ifs
    · exact .inr (.refl s)
    · cases c with
      | requestStop => exact .inr ⟨rfl, rfl, fun _ => rfl⟩
      | _ => exact .inr ⟨rfl, rfl, id⟩

/-! ### What is delivered -/

/-- The responses the driver has handed over on a channel, latest first. -/
def received (s : State) (ch : Fin kResponseChannels) : List Response :=
  (s.entries (.channel ch)).filterMap Entry.received?

/-- The responses a channel has given to the scheduler, latest first. -/
def responded (s : State) (ch : Fin kResponseChannels) : List Response :=
  (s.entries (.channel ch)).filterMap Entry.responded?

/-- What a response thread has yet to give to the scheduler. -/
def inHand : Channel → List Response
  | .returned r | .handling r | .timed r => [r].filter Response.isDeliverable
  | _ => []

/-- A channel gives the scheduler what the driver hands over, if it is valid, in order and once; it
    drops at most the last response, and only when the dispatcher is stopped. -/
def Delivers (s : State) (ch : Fin kResponseChannels) : Prop :=
  ∃ lost, inHand (s.channels ch) ++ lost ++ s.responded ch =
      (s.received ch).filter Response.isDeliverable ∧
    lost.length ≤ 1 ∧ (lost ≠ [] → s.stop = true)

/-- What is known of a response thread while the callback of the scheduler is set. -/
structure Sound (ch : Fin kResponseChannels) (s : State) : Prop where
  callback : s.callbacks.onResponse = true
  timed : ∀ r, s.channels ch = .timed r → r.status = 0 ∧ 0 ≤ r.dmaCh ∧ r.dmaCh < kResponseChannels
  delivered : inHand (s.channels ch) ++ s.responded ch =
      (s.received ch).filter Response.isDeliverable ∨
    s.stop = true ∧ (s.channels ch = .head ∨ s.channels ch = .ended) ∧
      ∃ r, r :: s.responded ch = (s.received ch).filter Response.isDeliverable

theorem received_emit (e : Entry) : (s.emit (.channel ch) e).received ch =
    (e.received?.toList ++ s.received ch) := by
  rw [received, entries_emit_self, List.filterMap_cons]
  cases e <;> rfl

theorem responded_emit (e : Entry) : (s.emit (.channel ch) e).responded ch =
    (e.responded?.toList ++ s.responded ch) := by
  rw [responded, entries_emit_self, List.filterMap_cons]
  cases e <;> rfl

theorem emitIf_callbacks (b : Bool) (e : Entry) : (s.emitIf b x e).callbacks = s.callbacks := by
  cases b <;> rfl

theorem responseLoop_callbacks (reply : Reply) :
    (s.responseLoop ch reply).callbacks = s.callbacks := by
  unfold responseLoop
  cases s.channels ch with
  | waiting => dsimp only; split_ifs <;> rfl
  | handling r => dsimp only; split_ifs <;> rfl
  | timed r => simp only [setChannel, emitIf_callbacks]
  | reporting r => simp only [setChannel, emitIf_callbacks]
  | _ => rfl

theorem handleEvent_callbacks (e : Event) : (s.handleEvent e).callbacks = s.callbacks := by
  cases e with
  | error errCode => simp only [handleEvent]; split_ifs <;> rfl
  | recovery action reason => simp only [handleEvent]; split_ifs <;> rfl
  | _ => rfl

theorem stepEvent_callbacks (reply : Reply) : (s.stepEvent reply).callbacks = s.callbacks := by
  unfold stepEvent
  cases s.eventLoop with
  | returned e => exact handleEvent_callbacks e
  | waiting => dsimp only; split_ifs <;> rfl
  | reporting err errCode after => exact emitIf_callbacks _ _
  | throttling info => exact emitIf_callbacks _ _
  | pausing errCode =>
    dsimp only
    split_ifs
    · rfl
    · exact emitIf_callbacks _ _
  | failing => exact emitIf_callbacks _ _
  | resuming => exact emitIf_callbacks _ _
  | _ => rfl

theorem Step.kept (h : Step s t) : Kept s.callbacks t.callbacks := by
  obtain ⟨a, rfl⟩ := h
  cases a with
  | thread x reply =>
    cases x with
    | channel k =>
      simp only [exec]
      split_ifs
      · exact .refl _
      · exact responseLoop_callbacks reply ▸ .refl _
    | event =>
      simp only [exec]
      split_ifs
      · exact .refl _
      · exact stepEvent_callbacks reply ▸ .refl _
  | call c =>
    simp only [exec]
    split_ifs
    · exact .refl _
    · cases c with
      | setResponseCallback => exact ⟨fun _ => rfl, id, id, id⟩
      | setErrorCallback => exact ⟨id, fun _ => rfl, id, id⟩
      | setRecoveryCallback => exact ⟨id, id, fun _ => rfl, id⟩
      | setThrottleCallback => exact ⟨id, id, id, id⟩
      | setRecoveryAdapter => exact ⟨id, id, id, fun _ => rfl⟩
      | requestStop => exact ⟨id, id, id, id⟩

theorem filter_not_deliverable (h : r.isDeliverable = false) :
    [r].filter Response.isDeliverable = [] := by
  rw [List.filter_cons_of_neg (by simp [h]), List.filter_nil]

theorem not_deliverable_of_status (h : r.status ≠ 0) : r.isDeliverable = false := by
  simp [Response.isDeliverable, h]

/-- A thread with nothing in hand, that has given everything to the scheduler. -/
theorem Sound.settled {c : Channel} (hcallback : s.callbacks.onResponse = true)
    (hc : s.channels ch = c) (htimed : ∀ r, c ≠ .timed r) (hhand : inHand c = [])
    (h : s.responded ch = (s.received ch).filter Response.isDeliverable) : Sound ch s where
  callback := hcallback
  timed r hr := absurd (hc.symm.trans hr) (htimed r)
  delivered := .inl (by rw [hc, hhand, List.nil_append, h])

/-- The driver hands over a response. -/
theorem Sound.receive (hcallback : s.callbacks.onResponse = true)
    (h : s.responded ch = (s.received ch).filter Response.isDeliverable) (r : Response) :
    Sound ch ((s.emit (.channel ch) (.received r)).setChannel ch (.returned r)) where
  callback := hcallback
  timed _ hr := by
    simp [setChannel_self] at hr
  delivered := by
    left
    have hreceived := @received_emit s ch (.received r)
    have hresponded := @responded_emit s ch (.received r)
    rw [setChannel_self]
    calc [r].filter Response.isDeliverable ++ (s.emit (.channel ch) (.received r)).responded ch
        = [r].filter Response.isDeliverable ++ (s.received ch).filter Response.isDeliverable := by
          rw [hresponded, ← h]
          rfl
      _ = ((s.emit (.channel ch) (.received r)).received ch).filter Response.isDeliverable := by
          rw [hreceived, ← List.filter_append]
          rfl

/-- At the second test of `_stop`. -/
theorem Sound.test (h : Sound ch s) (hc : s.channels ch = .returned r) :
    Sound ch (s.setChannel ch (if s.stop then .head else .handling r)) := by
  have hall : [r].filter Response.isDeliverable ++ s.responded ch =
      (s.received ch).filter Response.isDeliverable := by
    have hdelivered := h.delivered
    simpa [hc, inHand] using hdelivered
  refine ⟨h.callback, ?_, ?_⟩
  · intro r hr
    rw [setChannel_self] at hr
    split_ifs at hr
  · rw [setChannel_self]
    by_cases hstop : s.stop = true
    · rw [if_pos hstop]
      cases hr : r.isDeliverable with
      | true =>
        rw [List.filter_cons_of_pos hr] at hall
        exact .inr ⟨hstop, .inl rfl, r, hall⟩
      | false =>
        rw [filter_not_deliverable hr] at hall
        exact .inl hall
    · rw [if_neg hstop]
      exact .inl hall

/-- A response with a status is not for the scheduler, nor is one of an unknown channel. -/
theorem Sound.handle (h : Sound ch s) (reply : Reply) (hc : s.channels ch = .handling r) :
    Sound ch (s.responseLoop ch reply) := by
  have hall : [r].filter Response.isDeliverable ++ s.responded ch =
      (s.received ch).filter Response.isDeliverable := by
    have hdelivered := h.delivered
    simpa [hc, inHand] using hdelivered
  have hsame (e : Entry) (h1 : e.received? = none) (h2 : e.responded? = none) :
      (s.emit (.channel ch) e).received ch = s.received ch ∧
        (s.emit (.channel ch) e).responded ch = s.responded ch := by
    rw [received_emit, responded_emit, h1, h2]
    exact ⟨rfl, rfl⟩
  simp only [responseLoop, hc]
  by_cases hstatus : r.status ≠ 0
  · rw [filter_not_deliverable (not_deliverable_of_status hstatus)] at hall
    rw [if_pos hstatus]
    obtain ⟨hreceived, hresponded⟩ := hsame .dump rfl rfl
    split_ifs
    · exact .settled h.callback (setChannel_self _) (by simp) rfl hall
    · refine .settled h.callback (setChannel_self _) (by simp) rfl ?_
      exact hresponded.trans (hall.trans (congrArg _ hreceived.symm))
  · rw [if_neg hstatus]
    by_cases hch : 0 ≤ r.dmaCh ∧ r.dmaCh < kResponseChannels
    · obtain ⟨hreceived, hresponded⟩ := hsame (.timed r.dmaCh r.infTime) rfl rfl
      rw [if_pos hch]
      refine ⟨h.callback, ?_, .inl ?_⟩
      · intro u hu
        rw [setChannel_self] at hu
        obtain rfl := Channel.timed.inj hu
        exact ⟨not_not.mp hstatus, hch⟩
      · rw [setChannel_self]
        change [r].filter _ ++ (s.emit _ _).responded ch = ((s.emit _ _).received ch).filter _
        rw [hresponded, hall, hreceived]
    · rw [if_neg hch]
      have hr : r.isDeliverable = false := by
        simp only [Response.isDeliverable, Bool.and_eq_false_iff, decide_eq_false_iff_not]
        tauto
      rw [filter_not_deliverable hr] at hall
      exact .settled h.callback (setChannel_self _) (by simp) rfl hall

/-- The scheduler gets the response, if the process is a possible one. -/
theorem Sound.give (h : Sound ch s) (hc : s.channels ch = .timed r) :
    Sound ch ((s.emitIf (0 < r.pid && s.callbacks.onResponse) (.channel ch)
      (.responded r)).setChannel ch .head) := by
  have hall : [r].filter Response.isDeliverable ++ s.responded ch =
      (s.received ch).filter Response.isDeliverable := by
    have hdelivered := h.delivered
    simpa [hc, inHand] using hdelivered
  obtain ⟨hstatus, hlow, hhigh⟩ := h.timed r hc
  have hdeliverable : r.isDeliverable = decide (0 < r.pid) := by
    simp only [Response.isDeliverable, hstatus, hlow, hhigh, beq_self_eq_true, decide_true,
      Bool.true_and]
  rw [h.callback, Bool.and_true, ← hdeliverable]
  cases hr : r.isDeliverable with
  | true =>
    have hresponded := @responded_emit s ch (.responded r)
    have hreceived := @received_emit s ch (.responded r)
    rw [List.filter_cons_of_pos hr] at hall
    refine .settled h.callback (setChannel_self _) (by simp) rfl ?_
    exact hresponded.trans (hall.trans (congrArg _ hreceived.symm))
  | false =>
    rw [filter_not_deliverable hr] at hall
    exact .settled h.callback (setChannel_self _) (by simp) rfl hall

/-- On the way to the end of the process. -/
theorem Sound.fatal (h : Sound ch s) (hhand : inHand (s.channels ch) = [])
    (hnot : s.channels ch ≠ .head ∧ s.channels ch ≠ .ended) :
    s.responded ch = (s.received ch).filter Response.isDeliverable := by
  rcases h.delivered with hall | ⟨-, hplace | hplace, -⟩
  · rwa [hhand, List.nil_append] at hall
  · exact absurd hplace hnot.1
  · exact absurd hplace hnot.2

theorem Sound.responseLoop (h : Sound ch s) (reply : Reply) :
    Sound ch (s.responseLoop ch reply) := by
  cases hc : s.channels ch with
  | handling r => exact h.handle reply hc
  | head =>
    simp only [State.responseLoop, hc]
    refine ⟨h.callback, ?_, ?_⟩
    · intro r hr
      rw [setChannel_self] at hr
      split_ifs at hr
    · rw [setChannel_self]
      have hdelivered := h.delivered
      rw [hc] at hdelivered
      rcases hdelivered with hall | ⟨hstop, -, hlost⟩
      · left
        split_ifs <;> exact hall
      · right
        exact ⟨hstop, by simp [hstop], hlost⟩
  | waiting =>
    have hall := h.fatal (by rw [hc]; rfl) (by simp [hc])
    simp only [State.responseLoop, hc]
    split_ifs
    · exact .settled h.callback (setChannel_self _) (by simp) rfl hall
    · exact .receive h.callback hall _
  | returned r =>
    simp only [State.responseLoop, hc]
    exact h.test hc
  | timed r =>
    simp only [State.responseLoop, hc]
    exact h.give hc
  | stopping r =>
    have hall := h.fatal (by rw [hc]; rfl) (by simp [hc])
    simp only [State.responseLoop, hc]
    exact .settled h.callback (setChannel_self _) (by simp) rfl hall
  | blocking r =>
    have hall := h.fatal (by rw [hc]; rfl) (by simp [hc])
    simp only [State.responseLoop, hc]
    exact .settled h.callback (setChannel_self _) (by simp) rfl hall
  | reporting r =>
    have hall := h.fatal (by rw [hc]; rfl) (by simp [hc])
    simp only [State.responseLoop, hc]
    cases hb : s.callbacks.onError with
    | false => exact .settled h.callback (setChannel_self _) (by simp) rfl hall
    | true =>
      have hresponded := @responded_emit s ch (.errored .deviceResponseFault r.errCode)
      have hreceived := @received_emit s ch (.errored .deviceResponseFault r.errCode)
      refine .settled h.callback (setChannel_self _) (by simp) rfl ?_
      exact hresponded.trans (hall.trans (congrArg _ hreceived.symm))
  | asserting =>
    have hall := h.fatal (by rw [hc]; rfl) (by simp [hc])
    have hresponded := @responded_emit s ch .abort
    have hreceived := @received_emit s ch .abort
    simp only [State.responseLoop, hc]
    refine .settled h.callback hc (by simp) rfl ?_
    exact hresponded.trans (hall.trans (congrArg _ hreceived.symm))
  | ended =>
    simp only [State.responseLoop, hc]
    exact h

theorem Sound.step (hstep : Step s t) (h : Sound ch s) : Sound ch t := by
  rcases hstep.beside ch with ⟨reply, rfl⟩ | hbeside
  · exact h.responseLoop reply
  · have hreceived : t.received ch = s.received ch := congrArg _ hbeside.entries
    have hresponded : t.responded ch = s.responded ch := congrArg _ hbeside.entries
    refine ⟨hstep.kept.onResponse h.callback, ?_, ?_⟩
    · rw [hbeside.channel]
      exact h.timed
    · rw [hbeside.channel, hreceived, hresponded]
      rcases h.delivered with hall | ⟨hstop, hplace, hlost⟩
      · exact .inl hall
      · exact .inr ⟨hbeside.stop hstop, hplace, hlost⟩

theorem Sound.delivers (h : Sound ch s) : Delivers s ch := by
  rcases h.delivered with hall | ⟨hstop, hplace, r, hlost⟩
  · exact ⟨[], by rwa [List.append_nil], Nat.zero_le _, fun hne => absurd rfl hne⟩
  · have hhand : inHand (s.channels ch) = [] := by
      rcases hplace with hplace | hplace <;> rw [hplace] <;> rfl
    exact ⟨[r], by rwa [hhand], le_refl _, fun _ => hstop⟩

theorem sound_init {c : Callbacks} (hc : c.onResponse = true) : Sound ch (init c) :=
  .settled hc (c := .head) rfl (by simp) rfl rfl

/-- A response for process 1 from channel 0. -/
def response : Response := ⟨0, 0, 0, 1, 0⟩

/-- Channel 0 handles a response that the driver hands over. -/
def handleResponse (c : Callbacks) (r : Response) : State :=
  (List.replicate 5 (Actor.thread (.channel 0) ⟨0, r, .other, true⟩)).foldl State.exec (init c)

theorem run_foldl (s : State) (actors : List Actor) :
    Relation.ReflTransGen Step s (actors.foldl State.exec s) := by
  induction actors generalizing s with
  | nil => exact .refl
  | cons a actors ih => exact .head ⟨a, rfl⟩ (ih (s.exec a))

/-- Without the callback the response is lost. -/
theorem handleResponse_lost {c : Callbacks} (h : c.onResponse = false) :
    let s := handleResponse c response
    s.channels 0 = .head ∧ s.stop = false ∧ s.received 0 = [response] ∧ s.responded 0 = [] := by
  simp [handleResponse, exec, responseLoop, init, setChannel, emit, emitIf, h, response, received,
    responded, entries, List.filterMap_cons, Entry.received?, Entry.responded?]

/-- In every run every channel gives the scheduler each valid response that the driver hands over,
    in order and once, but for one when the dispatcher is stopped, exactly if the callback is in
    place when the threads start. -/
theorem delivers_iff (c : Callbacks) :
    (∀ t, Relation.ReflTransGen Step (init c) t → ∀ ch, Delivers t ch) ↔ c.onResponse = true := by
  constructor
  · intro h
    by_contra hunset
    rw [Bool.not_eq_true] at hunset
    obtain ⟨lost, hall, -, hstop⟩ := h (handleResponse c response) (run_foldl _ _) 0
    obtain ⟨hhead, hrunning, hreceived, hresponded⟩ := handleResponse_lost hunset
    have hdeliverable : [response].filter Response.isDeliverable = [response] := by decide
    rw [hhead, hreceived, hresponded, hdeliverable, List.append_nil] at hall
    have hlost : lost = [response] := hall
    have := hstop (hlost ▸ List.cons_ne_nil _ _)
    rw [hrunning] at this
    exact absurd this Bool.false_ne_true
  · intro hset t hrun ch
    exact (Run.invariant (fun _ _ hstep h => h.step hstep) hrun (sound_init hset)).delivers

/-! ### A status that is left to `EventLoop` -/

/-- Where a response thread is when a status has ended it, or is about to. -/
def Closing (s : State) (ch : Fin kResponseChannels) (r : Response) : Prop :=
  s.channels ch = .returned r ∨ s.channels ch = .handling r ∨
    (s.channels ch = .head ∧ s.stop = true) ∨ s.channels ch = .ended

/-- A closing thread does nothing more. -/
theorem Closing.step (hstep : Step s t) (hr : r.deferred = true) (h : Closing s ch r) :
    Closing t ch r ∧ t.entries (.channel ch) = s.entries (.channel ch) := by
  rcases hstep.beside ch with ⟨reply, rfl⟩ | hbeside
  · rcases h with hc | hc | ⟨hc, hstop⟩ | hc
    · simp only [responseLoop, hc]
      refine ⟨?_, rfl⟩
      by_cases hstop : s.stop = true
      · rw [if_pos hstop]
        exact .inr (.inr (.inl ⟨setChannel_self _, hstop⟩))
      · rw [if_neg hstop]
        exact .inr (.inl (setChannel_self _))
    · simp only [Response.deferred, Bool.and_eq_true, bne_iff_ne] at hr
      simp only [responseLoop, hc, if_pos hr.1, if_pos hr.2]
      exact ⟨.inr (.inr (.inr (setChannel_self _))), rfl⟩
    · simp only [responseLoop, hc, if_pos hstop]
      exact ⟨.inr (.inr (.inr (setChannel_self _))), rfl⟩
    · simp only [responseLoop, hc]
      exact ⟨.inr (.inr (.inr hc)), trivial⟩
  · refine ⟨?_, hbeside.entries⟩
    rw [Closing, hbeside.channel]
    exact h.imp_right (.imp_right (.imp_left fun hhead => ⟨hhead.1, hbeside.stop hhead.2⟩))

/-- A step adds at most one entry, and a response that comes in is in the hands of the thread. -/
theorem responseLoop_entries (ch : Fin kResponseChannels) (reply : Reply) :
    (s.responseLoop ch reply).entries (.channel ch) = s.entries (.channel ch) ∨
      ∃ e, (s.responseLoop ch reply).entries (.channel ch) = e :: s.entries (.channel ch) ∧
        ∀ r, e = .received r → (s.responseLoop ch reply).channels ch = .returned r := by
  have hemit (c : Channel) (e : Entry) (he : ∀ r, e ≠ .received r) :
      ∃ e', ((s.emit (.channel ch) e).setChannel ch c).entries (.channel ch) =
          e' :: s.entries (.channel ch) ∧
        ∀ r, e' = .received r →
          ((s.emit (.channel ch) e).setChannel ch c).channels ch = .returned r :=
    ⟨e, entries_emit_self e, fun r hr => absurd hr (he r)⟩
  cases hc : s.channels ch with
  | waiting =>
    simp only [responseLoop, hc]
    split_ifs
    · exact .inl rfl
    · refine .inr ⟨.received reply.response, entries_emit_self _, fun r hr => ?_⟩
      rw [setChannel_self, Entry.received.inj hr]
  | handling r =>
    simp only [responseLoop, hc]
    split_ifs
    · exact .inl rfl
    · exact .inr (hemit _ _ (by simp))
    · exact .inr (hemit _ _ (by simp))
    · exact .inl rfl
  | timed r =>
    simp only [responseLoop, hc]
    cases 0 < r.pid && s.callbacks.onResponse with
    | false => exact .inl rfl
    | true => exact .inr (hemit _ _ (by simp))
  | reporting r =>
    simp only [responseLoop, hc]
    cases s.callbacks.onError with
    | false => exact .inl rfl
    | true => exact .inr (hemit _ _ (by simp))
  | asserting =>
    simp only [responseLoop, hc]
    exact .inr ⟨.abort, entries_emit_self _, by simp⟩
  | head => exact .inl (by simp only [responseLoop, hc]; rfl)
  | returned r => exact .inl (by simp only [responseLoop, hc]; rfl)
  | stopping r => exact .inl (by simp only [responseLoop, hc]; rfl)
  | blocking r => exact .inl (by simp only [responseLoop, hc]; rfl)
  | ended => exact .inl (by simp only [responseLoop, hc])

/-- A response with a recoverable status is the last entry of its thread. -/
def Silent (ch : Fin kResponseChannels) (s : State) : Prop :=
  ∀ after before r, s.entries (.channel ch) = after ++ .received r :: before → r.deferred = true →
    after = [] ∧ Closing s ch r

theorem silent_init (ch : Fin kResponseChannels) (c : Callbacks) : Silent ch (init c) := by
  intro after before r hentries
  exact absurd hentries.symm (List.append_ne_nil_of_right_ne_nil _ (List.cons_ne_nil _ _))

theorem Silent.step (hstep : Step s t) (h : Silent ch s) : Silent ch t := by
  intro after before r hentries hr
  rcases hstep.beside ch with ⟨reply, rfl⟩ | hbeside
  · rcases s.responseLoop_entries ch reply with hsame | ⟨e, hadd, hreceived⟩
    · obtain ⟨hlast, hclosing⟩ := h after before r (hsame ▸ hentries) hr
      exact ⟨hlast, (hclosing.step hstep hr).1⟩
    · rw [hadd] at hentries
      cases after with
      | nil =>
        obtain rfl : e = .received r := (List.cons.inj hentries).1
        exact ⟨rfl, .inl (hreceived r rfl)⟩
      | cons a after =>
        -- the thread had closed before it added the entry
        obtain ⟨-, hclosing⟩ := h after before r (List.cons.inj hentries).2 hr
        have hsame := (hclosing.step hstep hr).2
        rw [hadd] at hsame
        exact absurd hsame (List.cons_ne_self _ _)
  · obtain ⟨hlast, hclosing⟩ := h after before r (hbeside.entries ▸ hentries) hr
    exact ⟨hlast, (hclosing.step hstep hr).1⟩

end State
end DeviceDispatcher
end DxRt
