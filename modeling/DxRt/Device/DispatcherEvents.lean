import DxRt.Device.Dispatcher

/-! lib/device_pool/device_dispatcher.cpp: what ends the process, and what comes before the end.

    The event thread ends the process after a fault, with or without a recovery of the device. The
    callbacks that inform the clients are `_onError` and, for a recovery, `PauseForRecovery` of the
    adapter or `_onRecovery`. -/

namespace DxRt.DeviceDispatcher

/-- An event that ends the process. -/
def Event.fatal : Event → Bool
  | .error errCode => errCode != 0
  | .recovery action reason =>
    action == DX_RECOVERY_FW_HANG || action == DX_RECOVERY_PERM_FAIL ||
      (isDriverOwnedRecoveryReason reason && action == DX_RECOVERY_STARTED)
  | .notifyThrot _ | .other => false

def Entry.fatal : Entry → Bool
  | .received r => r.fatal
  | .event e => e.fatal
  | _ => false

/-- The clients are informed. -/
def Entry.tells : Entry → Bool
  | .errored .. | .pausing _ | .recovering _ => true
  | _ => false

/-- The device is reset, or the process is over. -/
def Entry.drastic : Entry → Bool
  | .recovery _ | .quickExit | .abort => true
  | _ => false

namespace State
variable {s t : State} {ch k : Fin kResponseChannels} {r : Response} {x : Thread}

/-! ### Steps beside the event thread -/

/-- What a step of a response thread, or a call, leaves of the event thread. -/
structure BesideEvent (s t : State) : Prop where
  eventLoop : t.eventLoop = s.eventLoop
  active : t.driverOwnedRecoveryActive = s.driverOwnedRecoveryActive
  entries : t.entries .event = s.entries .event

theorem BesideEvent.refl (s : State) : BesideEvent s s := ⟨rfl, rfl, rfl⟩

theorem BesideEvent.emit (e : Entry) : BesideEvent s (s.emit (.channel ch) e) :=
  ⟨rfl, rfl, entries_emit_ne Thread.noConfusion e⟩

theorem BesideEvent.emitIf (b : Bool) (e : Entry) : BesideEvent s (s.emitIf b (.channel ch) e) := by
  cases b with
  | false => exact .refl s
  | true => exact .emit e

theorem BesideEvent.setChannel (h : BesideEvent s t) (c : Channel) :
    BesideEvent s (t.setChannel ch c) :=
  ⟨h.eventLoop, h.active, h.entries⟩

theorem responseLoop_besideEvent (reply : Reply) : BesideEvent s (s.responseLoop ch reply) := by
  unfold responseLoop
  cases s.channels ch with
  | waiting =>
    dsimp only
    split_ifs
    · exact (BesideEvent.refl s).setChannel _
    · exact (BesideEvent.emit _).setChannel _
  | handling r =>
    dsimp only
    split_ifs
    · exact (⟨rfl, rfl, rfl⟩ : BesideEvent s { s with isBlocked := true }).setChannel _
    · exact (BesideEvent.emit _).setChannel _
    · exact (BesideEvent.emit _).setChannel _
    · exact (BesideEvent.refl s).setChannel _
  | timed r => exact (BesideEvent.emitIf _ _).setChannel _
  | reporting r => exact (BesideEvent.emitIf _ _).setChannel _
  | asserting => exact ⟨rfl, rfl, entries_emit_ne Thread.noConfusion _⟩
  | _ => exact ⟨rfl, rfl, rfl⟩

/-- A call of the main thread, or a step of a process that is over. -/
structure Idle (s t : State) : Prop where
  channels : t.channels = s.channels
  besideEvent : BesideEvent s t
  exited : t.exited = s.exited
  log : t.log = s.log

theorem Idle.refl (s : State) : Idle s s := ⟨rfl, .refl s, rfl, rfl⟩

/-- A step is one of a response thread, of the event thread, or neither. -/
theorem Step.cases (h : Step s t) : (s.exited = false ∧ ∃ ch reply, t = s.responseLoop ch reply) ∨
    (s.exited = false ∧ ∃ reply, t = s.stepEvent reply) ∨ Idle s t := by
  obtain ⟨a, rfl⟩ := h
  cases hexited : s.exited with
  | true =>
    have hsame : s.exec a = s := by
      cases a with
      | thread x reply => cases x <;> exact if_pos hexited
      | call c => exact if_pos hexited
    exact .inr (.inr (hsame.symm ▸ .refl s))
  | false =>
    cases a with
    | thread x reply =>
      cases x with
      | channel ch => exact .inl ⟨rfl, ch, reply, by simp [exec, hexited]⟩
      | event => exact .inr (.inl ⟨rfl, reply, by simp [exec, hexited]⟩)
    | call c =>
      simp only [exec, hexited, Bool.false_eq_true, if_false]
      cases c <;> exact .inr (.inr ⟨rfl, ⟨rfl, rfl, rfl⟩, rfl, rfl⟩)

/-! ### The log grows -/

theorem subset_emit (e : Entry) : s.log ⊆ (s.emit x e).log := List.subset_cons_self ..

theorem subset_emitIf (b : Bool) (e : Entry) : s.log ⊆ (s.emitIf b x e).log := by
  cases b with
  | false => exact List.Subset.refl _
  | true => exact subset_emit e

theorem responseLoop_subset (reply : Reply) : s.log ⊆ (s.responseLoop ch reply).log := by
  have hrefl : s.log ⊆ s.log := List.Subset.refl _
  unfold responseLoop
  cases s.channels ch with
  | waiting =>
    dsimp only
    split_ifs
    · exact hrefl
    · exact subset_emit _
  | handling r =>
    dsimp only
    split_ifs
    · exact hrefl
    · exact subset_emit _
    · exact subset_emit _
    · exact hrefl
  | timed r => exact subset_emitIf _ _
  | reporting r => exact subset_emitIf _ _
  | asserting => exact subset_emit _
  | _ => exact hrefl

theorem handleEvent_log (e : Event) : (s.handleEvent e).log = s.log := by
  cases e with
  | error errCode => simp only [handleEvent]; split_ifs <;> rfl
  | recovery action reason => simp only [handleEvent]; split_ifs <;> rfl
  | _ => rfl

theorem stepEvent_subset (reply : Reply) : s.log ⊆ (s.stepEvent reply).log := by
  have hrefl : s.log ⊆ s.log := List.Subset.refl _
  unfold stepEvent
  cases s.eventLoop with
  | head => exact hrefl
  | waiting =>
    dsimp only
    split_ifs
    · exact hrefl
    · exact subset_emit _
  | returned e => exact (handleEvent_log e).symm ▸ hrefl
  | reporting err errCode after => exact subset_emitIf _ _
  | throttling info => exact subset_emitIf _ _
  | pausing errCode =>
    dsimp only
    split_ifs
    · exact subset_emit _
    · exact subset_emitIf _ _
  | draining => exact hrefl
  | failing => exact subset_emitIf _ _
  | resuming => exact subset_emitIf _ _
  | ended => exact hrefl
  | _ => exact subset_emit _

theorem Step.subset (h : Step s t) : s.log ⊆ t.log := by
  rcases h.cases with ⟨-, ch, reply, rfl⟩ | ⟨-, reply, rfl⟩ | hidle
  · exact responseLoop_subset reply
  · exact stepEvent_subset reply
  · rw [hidle.log]
    exact List.Subset.refl _

theorem stepEvent_channels (reply : Reply) : (s.stepEvent reply).channels = s.channels := by
  funext ch
  exact (stepEvent_beside reply).channel

/-! ### What ends the process -/

def FatalLog (log : List (Thread × Entry)) : Prop := ∃ y ∈ log, y.2.fatal = true

/-- Why a response thread is where it is. -/
def channelCause (log : List (Thread × Entry)) (ch : Fin kResponseChannels) : Channel → Prop
  | .returned r | .handling r => (Thread.channel ch, Entry.received r) ∈ log
  | .stopping _ | .blocking _ | .reporting _ | .asserting => FatalLog log
  | .head | .waiting | .timed _ | .ended => True

/-- Why the event thread is where it is. -/
def eventCause (log : List (Thread × Entry)) : EventLoop → Prop
  | .returned e => (Thread.event, Entry.event e) ∈ log
  | .head | .waiting | .throttling _ | .ended => True
  | _ => FatalLog log

/-- The process is over, or about to be, because of a fatal entry. -/
structure Caused (s : State) : Prop where
  exited : s.exited = true → FatalLog s.log
  channel : ∀ ch, channelCause s.log ch (s.channels ch)
  event : eventCause s.log s.eventLoop

theorem FatalLog.mono {log log' : List (Thread × Entry)} (hsub : log ⊆ log') (h : FatalLog log) :
    FatalLog log' := by
  obtain ⟨y, hy, hfatal⟩ := h
  exact ⟨y, hsub hy, hfatal⟩

theorem channelCause.mono {log log' : List (Thread × Entry)} {c : Channel} (hsub : log ⊆ log')
    (h : channelCause log ch c) : channelCause log' ch c := by
  cases c with
  | returned r => exact hsub h
  | handling r => exact hsub h
  | stopping r => exact FatalLog.mono hsub h
  | blocking r => exact FatalLog.mono hsub h
  | reporting r => exact FatalLog.mono hsub h
  | asserting => exact FatalLog.mono hsub h
  | _ => trivial

theorem eventCause.mono {log log' : List (Thread × Entry)} {c : EventLoop} (hsub : log ⊆ log')
    (h : eventCause log c) : eventCause log' c := by
  cases c with
  | returned e => exact hsub h
  | head => trivial
  | waiting => trivial
  | throttling info => trivial
  | ended => trivial
  | _ => exact FatalLog.mono hsub h

/-- A step of a response thread knows its cause. -/
structure Knows (ch : Fin kResponseChannels) (s t : State) : Prop where
  channel : channelCause t.log ch (t.channels ch)
  exited : t.exited = true → s.exited = true ∨ FatalLog t.log

theorem Knows.setChannel {c : Channel} (hexited : t.exited = s.exited)
    (h : channelCause t.log ch c) : Knows ch s (t.setChannel ch c) where
  channel := by rwa [setChannel_self]
  exited h := .inl (hexited ▸ h)

theorem emitIf_exited (b : Bool) (e : Entry) : (s.emitIf b x e).exited = s.exited := by
  cases b <;> rfl

theorem responseLoop_knows (reply : Reply) (h : channelCause s.log ch (s.channels ch)) :
    Knows ch s (s.responseLoop ch reply) := by
  cases hc : s.channels ch with
  | head =>
    simp only [responseLoop, hc]
    refine .setChannel rfl ?_
    split_ifs <;> trivial
  | waiting =>
    simp only [responseLoop, hc]
    split_ifs
    · exact .setChannel rfl trivial
    · exact .setChannel rfl List.mem_cons_self
  | returned r =>
    simp only [responseLoop, hc]
    rw [hc] at h
    refine .setChannel rfl ?_
    split_ifs
    · trivial
    · exact h
  | handling r =>
    rw [hc] at h
    simp only [responseLoop, hc]
    split_ifs with hstatus hrecoverable
    · exact .setChannel (t := { s with isBlocked := true }) rfl trivial
    · have hfatal : r.fatal = true := by
        simp [Response.fatal, hstatus, hrecoverable]
      refine .setChannel rfl ?_
      exact ⟨_, subset_emit _ h, hfatal⟩
    · exact .setChannel rfl trivial
    · exact .setChannel rfl trivial
  | timed r =>
    simp only [responseLoop, hc]
    exact .setChannel (emitIf_exited _ _) trivial
  | stopping r =>
    rw [hc] at h
    simp only [responseLoop, hc]
    exact .setChannel (t := { s with stop := true }) rfl h
  | blocking r =>
    rw [hc] at h
    simp only [responseLoop, hc]
    exact .setChannel (t := { s with isBlocked := true }) rfl h
  | reporting r =>
    rw [hc] at h
    simp only [responseLoop, hc]
    exact .setChannel (emitIf_exited _ _)
      (FatalLog.mono (subset_emitIf _ _) h)
  | asserting =>
    rw [hc] at h
    simp only [responseLoop, hc]
    have hfatal : FatalLog (s.emit (.channel ch) .abort).log := FatalLog.mono (subset_emit _) h
    refine ⟨?_, fun _ => .inr hfatal⟩
    exact hc.symm ▸ hfatal
  | ended =>
    simp only [responseLoop, hc]
    exact ⟨hc.symm ▸ trivial, .inl⟩

/-- A step of the event thread knows its cause. -/
structure KnowsEvent (s t : State) : Prop where
  event : eventCause t.log t.eventLoop
  exited : t.exited = true → s.exited = true ∨ FatalLog t.log

theorem KnowsEvent.setEvent {c : EventLoop} (hexited : t.exited = s.exited)
    (h : eventCause t.log c) : KnowsEvent s (t.setEvent c) :=
  ⟨h, fun h => .inl (hexited ▸ h)⟩

theorem handleEvent_knows (e : Event) (h : (Thread.event, Entry.event e) ∈ s.log) :
    KnowsEvent s (s.handleEvent e) := by
  have hfatal (he : e.fatal = true) : FatalLog s.log := ⟨_, h, he⟩
  cases e with
  | error errCode =>
    simp only [handleEvent]
    split_ifs with hzero
    · exact .setEvent rfl trivial
    all_goals exact .setEvent rfl (hfatal (by simp [Event.fatal, hzero]))
  | notifyThrot info => exact .setEvent rfl trivial
  | recovery action reason =>
    simp only [handleEvent]
    split_ifs with hterminal howned hstarted hdone
    · exact .setEvent rfl (hfatal (by
        rcases hterminal with rfl | rfl <;> simp [Event.fatal]))
    · exact ⟨hfatal (by simp [Event.fatal, howned, hstarted]), .inl⟩
    · exact ⟨trivial, .inl⟩
    · exact ⟨trivial, .inl⟩
    · exact .setEvent rfl trivial
  | other => exact .setEvent rfl trivial

theorem stepEvent_knows (reply : Reply) (h : eventCause s.log s.eventLoop) :
    KnowsEvent s (s.stepEvent reply) := by
  cases hc : s.eventLoop with
  | head =>
    simp only [stepEvent, hc]
    refine .setEvent rfl ?_
    split_ifs <;> trivial
  | waiting =>
    simp only [stepEvent, hc]
    split_ifs
    · exact .setEvent rfl trivial
    · exact .setEvent rfl List.mem_cons_self
  | returned e =>
    rw [hc] at h
    simp only [stepEvent, hc]
    exact handleEvent_knows e h
  | throttling info =>
    simp only [stepEvent, hc]
    exact .setEvent (emitIf_exited _ _) trivial
  | ended =>
    simp only [stepEvent, hc]
    exact ⟨hc.symm ▸ trivial, .inl⟩
  | reporting err errCode after =>
    rw [hc] at h
    simp only [stepEvent, hc]
    refine .setEvent (emitIf_exited _ _) ?_
    cases after <;> exact FatalLog.mono (subset_emitIf _ _) h
  | resetting =>
    rw [hc] at h
    simp only [stepEvent, hc]
    exact .setEvent rfl (FatalLog.mono (subset_emit _) h)
  | pausing errCode =>
    rw [hc] at h
    simp only [stepEvent, hc]
    split_ifs
    · exact .setEvent rfl (FatalLog.mono (subset_emit _) h)
    · exact .setEvent (emitIf_exited _ _) (FatalLog.mono (subset_emitIf _ _) h)
  | draining =>
    rw [hc] at h
    simp only [stepEvent, hc]
    refine .setEvent rfl ?_
    split_ifs <;> exact h
  | recovering =>
    rw [hc] at h
    simp only [stepEvent, hc]
    refine .setEvent rfl ?_
    split_ifs <;> exact FatalLog.mono (subset_emit _) h
  | identifying =>
    rw [hc] at h
    simp only [stepEvent, hc]
    refine .setEvent rfl ?_
    split_ifs <;> exact FatalLog.mono (subset_emit _) h
  | failing =>
    rw [hc] at h
    simp only [stepEvent, hc]
    exact .setEvent (emitIf_exited _ _) (FatalLog.mono (subset_emitIf _ _) h)
  | resuming =>
    rw [hc] at h
    simp only [stepEvent, hc]
    exact .setEvent (emitIf_exited _ _) (FatalLog.mono (subset_emitIf _ _) h)
  | exiting =>
    rw [hc] at h
    simp only [stepEvent, hc]
    have hfatal : FatalLog (s.emit .event .quickExit).log := FatalLog.mono (subset_emit _) h
    exact ⟨hc.symm ▸ hfatal, fun _ => .inr hfatal⟩
  | aborting =>
    rw [hc] at h
    simp only [stepEvent, hc]
    have hfatal : FatalLog (s.emit .event .abort).log := FatalLog.mono (subset_emit _) h
    exact ⟨hc.symm ▸ hfatal, fun _ => .inr hfatal⟩

theorem caused_init (c : Callbacks) : Caused (init c) where
  exited h := absurd h Bool.false_ne_true
  channel _ := trivial
  event := trivial

theorem Caused.step (hstep : Step s t) (h : Caused s) : Caused t := by
  rcases hstep.cases with ⟨-, ch, reply, rfl⟩ | ⟨-, reply, rfl⟩ | hidle
  · have hknows := responseLoop_knows reply (h.channel ch)
    refine ⟨fun hexited => ?_, fun k => ?_, ?_⟩
    · rcases hknows.exited hexited with hold | hnew
      · exact (h.exited hold).mono hstep.subset
      · exact hnew
    · by_cases hk : k = ch
      · exact hk ▸ hknows.channel
      · rw [(responseLoop_beside hk reply).channel]
        exact (h.channel k).mono hstep.subset
    · rw [(responseLoop_besideEvent reply).eventLoop]
      exact h.event.mono hstep.subset
  · have hknows := stepEvent_knows reply h.event
    refine ⟨fun hexited => ?_, fun k => ?_, hknows.event⟩
    · rcases hknows.exited hexited with hold | hnew
      · exact (h.exited hold).mono hstep.subset
      · exact hnew
    · rw [stepEvent_channels]
      exact (h.channel k).mono hstep.subset
  · refine ⟨?_, ?_, ?_⟩
    · rw [hidle.exited, hidle.log]
      exact h.exited
    · rw [hidle.channels, hidle.log]
      exact h.channel
    · rw [hidle.besideEvent.eventLoop, hidle.log]
      exact h.event

/-- In every run a response with a recoverable status is the last thing its thread does, and the
    process goes on until an event or a response with another status ends it. -/
theorem fault_silences {c : Callbacks} (hrun : Relation.ReflTransGen Step (init c) t) :
    (∀ ch after before r, t.entries (.channel ch) = after ++ .received r :: before →
      r.deferred = true → after = []) ∧ (t.exited = true → FatalLog t.log) := by
  constructor
  · intro ch after before r hentries hr
    have hsilent := Run.invariant (fun _ _ hstep h => h.step hstep) hrun (silent_init ch c)
    exact (hsilent after before r hentries hr).1
  · exact (Run.invariant (fun _ _ hstep h => h.step hstep) hrun (caused_init c)).exited

/-- A DMA abort on channel 0, which the driver reports with a response. -/
def dmaAbort : State := handleResponse ⟨true, true, false, true, true⟩ ⟨0, 0, 400, 1, 0⟩

theorem fault_silences_dma_abort :
    (∀ ch after before r, dmaAbort.entries (.channel ch) = after ++ .received r :: before →
      r.deferred = true → after = []) ∧ (dmaAbort.exited = true → FatalLog dmaAbort.log) :=
  fault_silences (run_foldl _ _)

/-! ### What the clients are told -/

def Told (log : List (Thread × Entry)) : Prop := ∃ y ∈ log, y.2.tells = true

/-- The clients are told before the device is reset and before the process ends. -/
def Informed (log : List (Thread × Entry)) : Prop :=
  Trace.Permitted (fun before y => y.2.drastic = true → Told before) log

/-- The event thread has informed the clients. -/
def eventTold : EventLoop → Bool
  | .resetting | .draining | .recovering | .identifying | .failing | .resuming | .exiting
  | .aborting => true
  | _ => false

structure Informs (s : State) : Prop where
  onError : s.callbacks.onError = true
  recovery : s.callbacks.recoveryAdapter = true ∨ s.callbacks.onRecovery = true
  informed : Informed s.log
  channel : ∀ ch, s.channels ch = .asserting → Told s.log
  event : eventTold s.eventLoop = true → Told s.log

theorem Told.mono {log log' : List (Thread × Entry)} (hsub : log ⊆ log') (h : Told log) :
    Told log' := by
  obtain ⟨y, hy, htells⟩ := h
  exact ⟨y, hsub hy, htells⟩

theorem Informed.emit {e : Entry} (h : Informed s.log) (he : e.drastic = true → Told s.log) :
    Informed (s.emit x e).log := ⟨he, h⟩

theorem Informed.emitIf {b : Bool} {e : Entry} (h : Informed s.log) (he : e.drastic = false) :
    Informed (s.emitIf b x e).log := by
  cases b with
  | false => exact h
  | true => exact h.emit fun hdrastic => absurd hdrastic (by simp [he])

theorem told_emit {e : Entry} (he : e.tells = true) : Told (s.emit x e).log :=
  ⟨(x, e), List.mem_cons_self, he⟩

theorem responseLoop_informed (h : Informs s) (ch : Fin kResponseChannels) (reply : Reply) :
    Informed (s.responseLoop ch reply).log ∧
      ((s.responseLoop ch reply).channels ch = .asserting →
        Told (s.responseLoop ch reply).log) := by
  have hkeep {u : State} {c : Channel} (hc : c ≠ .asserting) (hinformed : Informed u.log) :
      Informed (u.setChannel ch c).log ∧
        ((u.setChannel ch c).channels ch = .asserting → Told (u.setChannel ch c).log) :=
    ⟨hinformed, fun heq => absurd ((setChannel_self c).symm.trans heq) hc⟩
  cases hc : s.channels ch with
  | head =>
    simp only [responseLoop, hc]
    refine hkeep ?_ h.informed
    split_ifs <;> simp
  | waiting =>
    simp only [responseLoop, hc]
    split_ifs
    · exact hkeep (by simp) h.informed
    · exact hkeep (by simp) (h.informed.emit (by simp [Entry.drastic]))
  | returned r =>
    simp only [responseLoop, hc]
    refine hkeep ?_ h.informed
    split_ifs <;> simp
  | handling r =>
    simp only [responseLoop, hc]
    split_ifs
    · exact hkeep (u := { s with isBlocked := true }) (by simp) h.informed
    · exact hkeep (by simp) (h.informed.emit (by simp [Entry.drastic]))
    · exact hkeep (by simp) (h.informed.emit (by simp [Entry.drastic]))
    · exact hkeep (by simp) h.informed
  | timed r =>
    simp only [responseLoop, hc]
    exact hkeep (by simp) (h.informed.emitIf rfl)
  | stopping r =>
    simp only [responseLoop, hc]
    exact hkeep (u := { s with stop := true }) (by simp) h.informed
  | blocking r =>
    simp only [responseLoop, hc]
    exact hkeep (u := { s with isBlocked := true }) (by simp) h.informed
  | reporting r =>
    simp only [responseLoop, hc, h.onError]
    exact ⟨h.informed.emit (by simp [Entry.drastic]), fun _ => told_emit rfl⟩
  | asserting =>
    have htold := h.channel ch hc
    simp only [responseLoop, hc]
    exact ⟨h.informed.emit fun _ => htold, fun _ => htold.mono (subset_emit _)⟩
  | ended =>
    simp only [responseLoop, hc]
    exact ⟨h.informed, fun heq => h.channel ch (hc.trans heq)⟩

theorem handleEvent_informed (h : Informed s.log) (e : Event) :
    Informed (s.handleEvent e).log ∧ eventTold (s.handleEvent e).eventLoop = false := by
  cases e with
  | error errCode =>
    simp only [handleEvent]
    split_ifs <;> exact ⟨h, rfl⟩
  | notifyThrot info => exact ⟨h, rfl⟩
  | recovery action reason =>
    simp only [handleEvent]
    split_ifs <;> exact ⟨h, rfl⟩
  | other => exact ⟨h, rfl⟩

theorem stepEvent_informed (h : Informs s) (reply : Reply) :
    Informed (s.stepEvent reply).log ∧
      (eventTold (s.stepEvent reply).eventLoop = true → Told (s.stepEvent reply).log) := by
  cases hc : s.eventLoop with
  | head =>
    simp only [stepEvent, hc]
    refine ⟨h.informed, fun htold => ?_⟩
    cases hstop : s.stop <;> simp [setEvent, eventTold, hstop] at htold
  | waiting =>
    simp only [stepEvent, hc]
    split_ifs
    · exact ⟨h.informed, fun htold => absurd htold Bool.false_ne_true⟩
    · exact ⟨h.informed.emit (by simp [Entry.drastic]),
        fun htold => absurd htold Bool.false_ne_true⟩
  | returned e =>
    obtain ⟨hinformed, hnot⟩ := handleEvent_informed h.informed e
    simp only [stepEvent, hc]
    exact ⟨hinformed, fun htold => absurd htold (by simp [hnot])⟩
  | reporting err errCode after =>
    simp only [stepEvent, hc, h.onError]
    exact ⟨h.informed.emit (by simp [Entry.drastic]), fun _ => told_emit rfl⟩
  | throttling info =>
    simp only [stepEvent, hc]
    exact ⟨h.informed.emitIf rfl, fun htold => absurd htold Bool.false_ne_true⟩
  | pausing errCode =>
    simp only [stepEvent, hc]
    split_ifs with hadapter
    · exact ⟨h.informed.emit (by simp [Entry.drastic]), fun _ => told_emit rfl⟩
    · rw [h.recovery.resolve_left hadapter]
      exact ⟨h.informed.emit (by simp [Entry.drastic]), fun _ => told_emit rfl⟩
  | ended =>
    simp only [stepEvent, hc]
    exact ⟨h.informed, fun htold => h.event (hc.symm ▸ htold)⟩
  | draining =>
    have htold : Told s.log := h.event (by rw [hc]; rfl)
    simp only [stepEvent, hc]
    exact ⟨h.informed, fun _ => htold⟩
  | failing =>
    have htold : Told s.log := h.event (by rw [hc]; rfl)
    simp only [stepEvent, hc]
    exact ⟨h.informed.emitIf rfl, fun _ => htold.mono (subset_emitIf _ _)⟩
  | resuming =>
    have htold : Told s.log := h.event (by rw [hc]; rfl)
    simp only [stepEvent, hc]
    exact ⟨h.informed.emitIf rfl, fun _ => htold.mono (subset_emitIf _ _)⟩
  | _ =>
    -- `DXRT_CMD_RECOVERY`, the identification after it, or the end
    have htold : Told s.log := h.event (by rw [hc]; rfl)
    simp only [stepEvent, hc]
    exact ⟨h.informed.emit fun _ => htold, fun _ => htold.mono (subset_emit _)⟩

theorem Informs.step (hstep : Step s t) (h : Informs s) : Informs t := by
  have hkept := hstep.kept
  have hrecovery := h.recovery.imp hkept.recoveryAdapter hkept.onRecovery
  rcases hstep.cases with ⟨-, ch, reply, rfl⟩ | ⟨-, reply, rfl⟩ | hidle
  · obtain ⟨hinformed, hchannel⟩ := responseLoop_informed h ch reply
    refine ⟨hkept.onError h.onError, hrecovery, hinformed, fun k hk => ?_, fun htold => ?_⟩
    · by_cases heq : k = ch
      · exact hchannel (heq ▸ hk)
      · rw [(responseLoop_beside heq reply).channel] at hk
        exact (h.channel k hk).mono hstep.subset
    · rw [(responseLoop_besideEvent reply).eventLoop] at htold
      exact (h.event htold).mono hstep.subset
  · obtain ⟨hinformed, hevent⟩ := stepEvent_informed h reply
    refine ⟨hkept.onError h.onError, hrecovery, hinformed, fun k hk => ?_, hevent⟩
    rw [stepEvent_channels] at hk
    exact (h.channel k hk).mono hstep.subset
  · refine ⟨hkept.onError h.onError, hrecovery, hidle.log ▸ h.informed, fun k hk => ?_,
      fun htold => ?_⟩
    · rw [hidle.channels] at hk
      exact hidle.log ▸ h.channel k hk
    · rw [hidle.besideEvent.eventLoop] at htold
      exact hidle.log ▸ h.event htold

theorem informs_init {c : Callbacks} (honError : c.onError = true)
    (hrecovery : c.recoveryAdapter = true ∨ c.onRecovery = true) : Informs (init c) :=
  ⟨honError, hrecovery, trivial, fun _ hc => absurd hc (by simp [init]),
    fun htold => absurd htold Bool.false_ne_true⟩

/-- The event thread takes an event up, and every call it makes succeeds. -/
def handleOnly (c : Callbacks) (e : Event) (n : ℕ) : State :=
  (List.replicate n (Actor.thread .event ⟨0, response, e, true⟩)).foldl State.exec (init c)

theorem handleOnly_hang {c : Callbacks} (h : c.onError = false) :
    (handleOnly c (.recovery DX_RECOVERY_FW_HANG 0) 5).log =
      [(.event, .quickExit), (.event, .event (.recovery DX_RECOVERY_FW_HANG 0))] := by
  simp [handleOnly, exec, stepEvent, handleEvent, init, setEvent, emit, emitIf, State.exit, h]

theorem handleOnly_timeout {c : Callbacks} (hadapter : c.recoveryAdapter = false)
    (hrecovery : c.onRecovery = false) : (handleOnly c (.error 300) 5).log =
      [(.event, .recovery 0), (.event, .event (.error 300))] := by
  simp [handleOnly, exec, stepEvent, handleEvent, init, setEvent, emit, emitIf, isRecoverable,
    hadapter, hrecovery]

/-- In every run the clients are told before the device is reset and before the process ends,
    exactly if `_onError` is in place when the threads start, and the adapter or `_onRecovery`. -/
theorem informed_iff (c : Callbacks) :
    (∀ t, Relation.ReflTransGen Step (init c) t → Informed t.log) ↔
      c.onError = true ∧ (c.recoveryAdapter = true ∨ c.onRecovery = true) := by
  constructor
  · intro h
    refine ⟨?_, ?_⟩
    · by_contra hunset
      rw [Bool.not_eq_true] at hunset
      have hinformed := h (handleOnly c (.recovery DX_RECOVERY_FW_HANG 0) 5) (run_foldl _ _)
      rw [handleOnly_hang hunset] at hinformed
      obtain ⟨y, hy, htells⟩ := hinformed.1 rfl
      rw [List.mem_singleton.mp hy] at htells
      exact absurd htells Bool.false_ne_true
    · by_contra hunset
      rw [not_or, Bool.not_eq_true, Bool.not_eq_true] at hunset
      have hinformed := h (handleOnly c (.error 300) 5) (run_foldl _ _)
      rw [handleOnly_timeout hunset.1 hunset.2] at hinformed
      obtain ⟨y, hy, htells⟩ := hinformed.1 rfl
      rw [List.mem_singleton.mp hy] at htells
      exact absurd htells Bool.false_ne_true
  · rintro ⟨honError, hrecovery⟩ t hrun
    have hinit := informs_init honError hrecovery
    exact (Run.invariant (fun _ _ hstep h => h.step hstep) hrun hinit).informed

/-! ### The reaction to an event -/

/-- What leaves the event thread at work. -/
def calm : Entry → Bool
  | .event e => !e.fatal
  | .throttled _ => true
  | _ => false

/-- What `EventLoop` reports of an event, and what it does then. -/
inductive Reports : Event → ServerErr → ℕ → After → Prop
  | terminal {action reason : ℕ}
      (h : action = DX_RECOVERY_FW_HANG ∨ action = DX_RECOVERY_PERM_FAIL) :
      Reports (.recovery action reason) .deviceEventFault reason .exit
  | driverOwned {reason : ℕ} (h : isDriverOwnedRecoveryReason reason = true) :
      Reports (.recovery DX_RECOVERY_STARTED reason) .needDevRecovery reason .exit
  | fault {errCode : ℕ} (hne : errCode ≠ 0) (h : isRecoverable errCode = false) :
      Reports (.error errCode) .deviceEventFault errCode .recover

/-- From a fatal event to the end of the process. -/
inductive Script : List Entry → Prop
  | exits {e : Event} {err : ServerErr} {errCode : ℕ} (h : Reports e err errCode .exit) :
      Script [.event e, .errored err errCode, .quickExit]
  | resets {e : Event} {err : ServerErr} {errCode : ℕ} (h : Reports e err errCode .recover)
      (ret : ℤ) : Script [.event e, .errored err errCode, .recovery ret, .abort]
  | notPaused {errCode : ℕ} (h : isRecoverable errCode = true) :
      Script [.event (.error errCode), .pausing errCode, .abort]
  | notRecovered {errCode : ℕ} {ret : ℤ} (h : isRecoverable errCode = true) (hret : ret < 0) :
      Script [.event (.error errCode), .pausing errCode, .recovery ret, .recoveryFailed, .abort]
  | notIdentified {errCode : ℕ} {ret found : ℤ} (h : isRecoverable errCode = true) (hret : 0 ≤ ret)
      (hfound : found ≠ 0) :
      Script [.event (.error errCode), .pausing errCode, .recovery ret, .identify found,
        .recoveryFailed, .abort]
  | recovers {errCode : ℕ} {ret : ℤ} (h : isRecoverable errCode = true) (hret : 0 ≤ ret) :
      Script [.event (.error errCode), .pausing errCode, .recovery ret, .identify 0, .resumed,
        .quickExit]

/-- What the event thread has done since a fatal event, latest first, by where it is. -/
inductive At : EventLoop → List Entry → Prop
  | head : At .head []
  | waiting : At .waiting []
  | ended : At .ended []
  | throttling (info : ThrotInfo) : At (.throttling info) []
  | returned {e : Event} (h : e.fatal = false) : At (.returned e) []
  | fatal {e : Event} (h : e.fatal = true) : At (.returned e) [.event e]
  | reporting {e : Event} {err : ServerErr} {errCode : ℕ} {after : After}
      (h : Reports e err errCode after) : At (.reporting err errCode after) [.event e]
  | reported {e : Event} {err : ServerErr} {errCode : ℕ} (h : Reports e err errCode .exit) :
      At .exiting [.errored err errCode, .event e]
  | resetting {e : Event} {err : ServerErr} {errCode : ℕ} (h : Reports e err errCode .recover) :
      At .resetting [.errored err errCode, .event e]
  | reset {e : Event} {err : ServerErr} {errCode : ℕ} (h : Reports e err errCode .recover)
      (ret : ℤ) : At .aborting [.recovery ret, .errored err errCode, .event e]
  | pausing {errCode : ℕ} (h : isRecoverable errCode = true) :
      At (.pausing errCode) [.event (.error errCode)]
  | draining {errCode : ℕ} (h : isRecoverable errCode = true) :
      At .draining [.pausing errCode, .event (.error errCode)]
  | notPaused {errCode : ℕ} (h : isRecoverable errCode = true) :
      At .aborting [.pausing errCode, .event (.error errCode)]
  | recovering {errCode : ℕ} (h : isRecoverable errCode = true) :
      At .recovering [.pausing errCode, .event (.error errCode)]
  | notRecovered {errCode : ℕ} {ret : ℤ} (h : isRecoverable errCode = true) (hret : ret < 0) :
      At .failing [.recovery ret, .pausing errCode, .event (.error errCode)]
  | notRecoveredTold {errCode : ℕ} {ret : ℤ} (h : isRecoverable errCode = true) (hret : ret < 0) :
      At .aborting [.recoveryFailed, .recovery ret, .pausing errCode, .event (.error errCode)]
  | identifying {errCode : ℕ} {ret : ℤ} (h : isRecoverable errCode = true) (hret : 0 ≤ ret) :
      At .identifying [.recovery ret, .pausing errCode, .event (.error errCode)]
  | notIdentified {errCode : ℕ} {ret found : ℤ} (h : isRecoverable errCode = true) (hret : 0 ≤ ret)
      (hfound : found ≠ 0) :
      At .failing [.identify found, .recovery ret, .pausing errCode, .event (.error errCode)]
  | notIdentifiedTold {errCode : ℕ} {ret found : ℤ} (h : isRecoverable errCode = true)
      (hret : 0 ≤ ret) (hfound : found ≠ 0) :
      At .aborting [.recoveryFailed, .identify found, .recovery ret, .pausing errCode,
        .event (.error errCode)]
  | resuming {errCode : ℕ} {ret : ℤ} (h : isRecoverable errCode = true) (hret : 0 ≤ ret) :
      At .resuming [.identify 0, .recovery ret, .pausing errCode, .event (.error errCode)]
  | resumed {errCode : ℕ} {ret : ℤ} (h : isRecoverable errCode = true) (hret : 0 ≤ ret) :
      At .exiting [.resumed, .identify 0, .recovery ret, .pausing errCode,
        .event (.error errCode)]

/-- `EventLoop` is in its loop. -/
def loops : EventLoop → Bool
  | .head | .waiting | .returned _ | .throttling _ => true
  | _ => false

/-- The next entry of the event thread, after `part` since a fatal event. -/
def Moves (part : List Entry) (s t : State) : Prop :=
  (t.entries .event = s.entries .event ∧ At t.eventLoop part) ∨
    ∃ e, t.entries .event = e :: s.entries .event ∧
      (part = [] ∧ calm e = true ∧ At t.eventLoop [] ∨ At t.eventLoop (e :: part) ∨
        t.exited = true ∧ Script (e :: part).reverse)

theorem Moves.stay {part : List Entry} {c : EventLoop} (h : At c part) :
    Moves part s (s.setEvent c) := .inl ⟨rfl, h⟩

theorem Moves.add {part : List Entry} {c : EventLoop} {e : Entry} (h : At c (e :: part)) :
    Moves part s ((s.emit .event e).setEvent c) := .inr ⟨e, entries_emit_self e, .inr (.inl h)⟩

theorem Moves.exit {part : List Entry} {e : Entry} (h : Script (e :: part).reverse) :
    Moves part s (s.exit .event e) := .inr ⟨e, entries_emit_self e, .inr (.inr ⟨rfl, h⟩)⟩

theorem At.of_calm {e : Event} {part : List Entry} (hat : At (.returned e) part)
    (h : e.fatal = false) : part = [] := by
  cases hat with
  | returned => rfl
  | fatal hfatal => exact absurd hfatal (by simp [h])

theorem At.of_fatal {e : Event} {part : List Entry} (hat : At (.returned e) part)
    (h : e.fatal = true) : part = [.event e] := by
  cases hat with
  | returned hcalm => exact absurd h (by simp [hcalm])
  | fatal => rfl

/-- The guard of `driverOwnedRecoveryActive` is not needed: it is not set when an event comes. -/
theorem handleEvent_moves {e : Event} {part : List Entry} (hat : At (.returned e) part)
    (hactive : s.driverOwnedRecoveryActive = false) : Moves part s (s.handleEvent e) ∧
      (loops (s.handleEvent e).eventLoop = true →
        (s.handleEvent e).driverOwnedRecoveryActive = false) := by
  have hleft {c : EventLoop} (hc : loops c = false) : loops c = true →
      s.driverOwnedRecoveryActive = false := fun h => absurd h (by simp [hc])
  cases e with
  | error errCode =>
    simp only [handleEvent, hactive]
    split_ifs with hzero hrecoverable
    · rw [hat.of_calm (by simp [Event.fatal, hzero])]
      exact ⟨.stay .head, fun _ => hactive⟩
    · contradiction
    · rw [hat.of_fatal (by simp [Event.fatal, hzero])]
      exact ⟨.stay (.pausing hrecoverable), hleft rfl⟩
    · rw [hat.of_fatal (by simp [Event.fatal, hzero])]
      rw [Bool.not_eq_true] at hrecoverable
      exact ⟨.stay (.reporting (.fault hzero hrecoverable)), hleft rfl⟩
  | notifyThrot info =>
    rw [hat.of_calm rfl]
    exact ⟨.stay (.throttling info), fun _ => hactive⟩
  | other =>
    rw [hat.of_calm rfl]
    exact ⟨.stay .head, fun _ => hactive⟩
  | recovery action reason =>
    simp only [handleEvent]
    split_ifs with hterminal howned hstarted hdone
    · rw [hat.of_fatal (by rcases hterminal with rfl | rfl <;> simp [Event.fatal])]
      exact ⟨.stay (.reporting (.terminal hterminal)), hleft rfl⟩
    · subst hstarted
      rw [hat.of_fatal (by simp [Event.fatal, howned])]
      exact ⟨.inl ⟨rfl, .reporting (.driverOwned howned)⟩, fun h => absurd h Bool.false_ne_true⟩
    · rw [not_or] at hterminal
      rw [hat.of_calm (by simp [Event.fatal, hterminal, hstarted])]
      exact ⟨.inl ⟨rfl, .head⟩, fun _ => rfl⟩
    · rw [not_or] at hterminal
      rw [hat.of_calm (by simp [Event.fatal, hterminal, hstarted])]
      exact ⟨.inl ⟨rfl, .head⟩, fun _ => hactive⟩
    · rw [not_or] at hterminal
      rw [hat.of_calm (by simp [Event.fatal, hterminal, howned])]
      exact ⟨.stay .head, fun _ => hactive⟩

/-- With the callbacks in place the event thread goes on with its script. -/
theorem stepEvent_moves {part : List Entry} (hat : At s.eventLoop part)
    (hactive : loops s.eventLoop = true → s.driverOwnedRecoveryActive = false)
    (honError : s.callbacks.onError = true) (hadapter : s.callbacks.recoveryAdapter = true)
    (reply : Reply) : Moves part s (s.stepEvent reply) ∧
      (loops (s.stepEvent reply).eventLoop = true →
        (s.stepEvent reply).driverOwnedRecoveryActive = false) := by
  have hleft {c : EventLoop} (hc : loops c = false) {b : Bool} : loops c = true → b = false :=
    fun h => absurd h (by simp [hc])
  have hover (e : Entry) (hc : loops s.eventLoop = false) :
      loops (s.exit .event e).eventLoop = true →
        (s.exit .event e).driverOwnedRecoveryActive = false := hleft hc
  generalize hc : s.eventLoop = c at hat hactive
  simp only [stepEvent, hc]
  cases hat with
  | head =>
    refine ⟨.stay ?_, fun _ => hactive rfl⟩
    split_ifs
    · exact .ended
    · exact .waiting
  | waiting =>
    dsimp only
    split_ifs
    · exact ⟨.stay .head, fun _ => hactive rfl⟩
    · refine ⟨?_, fun _ => hactive rfl⟩
      cases hfatal : reply.event.fatal with
      | true => exact .add (.fatal hfatal)
      | false =>
        refine .inr ⟨_, entries_emit_self _, .inl ⟨rfl, ?_, .returned hfatal⟩⟩
        simp [calm, hfatal]
  | ended =>
    have hended : At s.eventLoop [] := hc.symm ▸ .ended
    exact ⟨.inl ⟨rfl, hended⟩, fun h => absurd h (by simp [hc, loops])⟩
  | throttling info =>
    refine ⟨?_, fun _ => ?_⟩
    · dsimp only
      cases s.callbacks.onThrottle with
      | false => exact .stay .head
      | true => exact .inr ⟨_, entries_emit_self _, .inl ⟨rfl, rfl, .head⟩⟩
    · cases s.callbacks.onThrottle <;> exact hactive rfl
  | returned h => exact handleEvent_moves (.returned h) (hactive rfl)
  | fatal h => exact handleEvent_moves (.fatal h) (hactive rfl)
  | @reporting e err errCode after h =>
    rw [honError]
    cases after with
    | exit => exact ⟨.add (.reported h), hleft rfl⟩
    | recover => exact ⟨.add (.resetting h), hleft rfl⟩
  | resetting h => exact ⟨.add (.reset h reply.ret), hleft rfl⟩
  | pausing h =>
    rw [hadapter]
    exact ⟨.add (.draining h), hleft rfl⟩
  | draining h =>
    cases reply.pauseOk with
    | false => exact ⟨.stay (.notPaused h), hleft rfl⟩
    | true => exact ⟨.stay (.recovering h), hleft rfl⟩
  | recovering h =>
    dsimp only
    by_cases hret : reply.ret < 0
    · rw [if_pos hret]
      exact ⟨.add (.notRecovered h hret), hleft rfl⟩
    · rw [if_neg hret]
      exact ⟨.add (.identifying h (not_lt.mp hret)), hleft rfl⟩
  | identifying h hret =>
    dsimp only
    by_cases hfound : reply.ret = 0
    · rw [if_neg (not_not.mpr hfound), hfound]
      exact ⟨.add (.resuming h hret), hleft rfl⟩
    · rw [if_pos hfound]
      exact ⟨.add (.notIdentified h hret hfound), hleft rfl⟩
  | notRecovered h hret =>
    rw [hadapter]
    exact ⟨.add (.notRecoveredTold h hret), hleft rfl⟩
  | notIdentified h hret hfound =>
    rw [hadapter]
    exact ⟨.add (.notIdentifiedTold h hret hfound), hleft rfl⟩
  | resuming h hret =>
    rw [hadapter]
    exact ⟨.add (.resumed h hret), hleft rfl⟩
  | reported h => exact ⟨.exit (.exits h), hover .quickExit (by rw [hc]; rfl)⟩
  | resumed h hret => exact ⟨.exit (.recovers h hret), hover .quickExit (by rw [hc]; rfl)⟩
  | reset h ret => exact ⟨.exit (.resets h ret), hover .abort (by rw [hc]; rfl)⟩
  | notPaused h => exact ⟨.exit (.notPaused h), hover .abort (by rw [hc]; rfl)⟩
  | notRecoveredTold h hret =>
    exact ⟨.exit (.notRecovered h hret), hover .abort (by rw [hc]; rfl)⟩
  | notIdentifiedTold h hret hfound =>
    exact ⟨.exit (.notIdentified h hret hfound), hover .abort (by rw [hc]; rfl)⟩

/-- The event thread has gone on after calm events, and is in the script of a fatal one. -/
structure Follows (s : State) : Prop where
  onError : s.callbacks.onError = true
  recoveryAdapter : s.callbacks.recoveryAdapter = true
  active : loops s.eventLoop = true → s.driverOwnedRecoveryActive = false
  entries : ∃ before part, s.entries .event = part ++ before ∧ (∀ e ∈ before, calm e = true) ∧
    (At s.eventLoop part ∨ s.exited = true ∧ Script part.reverse)

theorem follows_init {c : Callbacks} (honError : c.onError = true)
    (hadapter : c.recoveryAdapter = true) : Follows (init c) :=
  ⟨honError, hadapter, fun _ => rfl, [], [], rfl, List.forall_mem_nil _, .inl .head⟩

theorem Follows.of_beside (h : Follows s) (hkept : Kept s.callbacks t.callbacks)
    (hbeside : BesideEvent s t) (hexited : s.exited = true → t.exited = true) : Follows t := by
  obtain ⟨before, part, hentries, hcalm, hat⟩ := h.entries
  refine ⟨hkept.onError h.onError, hkept.recoveryAdapter h.recoveryAdapter, ?_, before, part, ?_,
    hcalm, ?_⟩
  · rw [hbeside.eventLoop, hbeside.active]
    exact h.active
  · rw [hbeside.entries, hentries]
  · rw [hbeside.eventLoop]
    exact hat.imp_right fun hover => ⟨hexited hover.1, hover.2⟩

theorem Follows.step (hstep : Step s t) (h : Follows s) : Follows t := by
  rcases hstep.cases with ⟨hrunning, ch, reply, rfl⟩ | ⟨hrunning, reply, rfl⟩ | hidle
  · refine h.of_beside hstep.kept (responseLoop_besideEvent reply) fun hexited => ?_
    exact absurd hexited (by simp [hrunning])
  · obtain ⟨before, part, hentries, hcalm, hat | hover⟩ := h.entries
    · obtain ⟨hmoves, hactive⟩ :=
        stepEvent_moves hat h.active h.onError h.recoveryAdapter reply
      refine ⟨hstep.kept.onError h.onError, hstep.kept.recoveryAdapter h.recoveryAdapter, hactive,
        ?_⟩
      rcases hmoves with ⟨hsame, hnext⟩ | ⟨e, hadd, ⟨hnil, he, hnext⟩ | hnext | hexit⟩
      · exact ⟨before, part, hsame.trans hentries, hcalm, .inl hnext⟩
      · refine ⟨e :: before, [], ?_, List.forall_mem_cons.mpr ⟨he, hcalm⟩, .inl hnext⟩
        rw [hadd, hentries, hnil]
        rfl
      · exact ⟨before, e :: part, by rw [hadd, hentries]; rfl, hcalm, .inl hnext⟩
      · exact ⟨before, e :: part, by rw [hadd, hentries]; rfl, hcalm, .inr hexit⟩
    · exact absurd hover.1 (by simp [hrunning])
  · exact h.of_beside hstep.kept hidle.besideEvent fun hexited => hidle.exited.trans hexited

/-- Every fatal event has a script. -/
theorem exists_script {e : Event} (h : e.fatal = true) :
    ∃ rest, Script (.event e :: rest) := by
  cases e with
  | error errCode =>
    have hne : errCode ≠ 0 := by simpa [Event.fatal] using h
    cases hrecoverable : isRecoverable errCode with
    | true => exact ⟨_, .notPaused hrecoverable⟩
    | false => exact ⟨_, .resets (.fault hne hrecoverable) 0⟩
  | recovery action reason =>
    simp only [Event.fatal, Bool.or_eq_true, Bool.and_eq_true, beq_iff_eq] at h
    rcases h with hterminal | ⟨howned, rfl⟩
    · exact ⟨_, .exits (.terminal hterminal)⟩
    · exact ⟨_, .exits (.driverOwned howned)⟩
  | notifyThrot info => exact absurd h Bool.false_ne_true
  | other => exact absurd h Bool.false_ne_true

/-- Wherever the event thread is, it has done the beginning of a script. -/
theorem At.script {c : EventLoop} {part : List Entry} (h : At c part) :
    part = [] ∨ ∃ script, Script script ∧ part.reverse <+: script := by
  cases h with
  | head => exact .inl rfl
  | waiting => exact .inl rfl
  | ended => exact .inl rfl
  | throttling info => exact .inl rfl
  | returned h => exact .inl rfl
  | fatal h =>
    obtain ⟨rest, hscript⟩ := exists_script h
    exact .inr ⟨_, hscript, rest, rfl⟩
  | @reporting e err errCode after h =>
    cases after with
    | exit => exact .inr ⟨_, .exits h, _, rfl⟩
    | recover => exact .inr ⟨_, .resets h 0, _, rfl⟩
  | reported h => exact .inr ⟨_, .exits h, _, rfl⟩
  | resetting h => exact .inr ⟨_, .resets h 0, _, rfl⟩
  | reset h ret => exact .inr ⟨_, .resets h ret, _, rfl⟩
  | pausing h => exact .inr ⟨_, .notPaused h, _, rfl⟩
  | draining h => exact .inr ⟨_, .notPaused h, _, rfl⟩
  | notPaused h => exact .inr ⟨_, .notPaused h, _, rfl⟩
  | recovering h => exact .inr ⟨_, .notPaused h, _, rfl⟩
  | notRecovered h hret => exact .inr ⟨_, .notRecovered h hret, _, rfl⟩
  | notRecoveredTold h hret => exact .inr ⟨_, .notRecovered h hret, _, rfl⟩
  | identifying h hret => exact .inr ⟨_, .recovers h hret, _, rfl⟩
  | notIdentified h hret hfound => exact .inr ⟨_, .notIdentified h hret hfound, _, rfl⟩
  | notIdentifiedTold h hret hfound => exact .inr ⟨_, .notIdentified h hret hfound, _, rfl⟩
  | resuming h hret => exact .inr ⟨_, .recovers h hret, _, rfl⟩
  | resumed h hret => exact .inr ⟨_, .recovers h hret, _, rfl⟩

/-- In every run, with the callbacks in place when the threads start, the event thread lets calm
    events pass and reacts to the first fatal one with the script of that event, which ends the
    process; it may be interrupted anywhere by the end of the process. -/
theorem event_script {c : Callbacks} (honError : c.onError = true)
    (hadapter : c.recoveryAdapter = true) (hrun : Relation.ReflTransGen Step (init c) t) :
    ∃ before part, (t.entries .event).reverse = before ++ part ∧ (∀ e ∈ before, calm e = true) ∧
      (part = [] ∨ ∃ script, Script script ∧ part <+: script) := by
  have h := Run.invariant (fun _ _ hstep h => Follows.step hstep h) hrun
    (follows_init honError hadapter)
  obtain ⟨before, part, hentries, hcalm, hat⟩ := h.entries
  refine ⟨before.reverse, part.reverse, by rw [hentries, List.reverse_append], ?_, ?_⟩
  · intro e he
    exact hcalm e (List.mem_reverse.mp he)
  · rcases hat with hat | ⟨-, hscript⟩
    · exact hat.script.imp_left fun hnil => by rw [hnil, List.reverse_nil]
    · exact .inr ⟨_, hscript, List.prefix_refl _⟩

/-- An abort of a DMA channel, with a recovery that succeeds. -/
theorem event_script_dma_abort : ∃ before part,
    ((handleOnly ⟨true, true, false, true, true⟩ (.error 400) 9).entries .event).reverse =
      before ++ part ∧ (∀ e ∈ before, calm e = true) ∧
        (part = [] ∨ ∃ script, Script script ∧ part <+: script) :=
  event_script rfl rfl (run_foldl _ _)

example : (handleOnly ⟨true, true, false, true, true⟩ (.error 400) 9).entries .event =
    [.quickExit, .resumed, .identify 0, .recovery 0, .pausing 400, .event (.error 400)] := by
  decide

end State
end DxRt.DeviceDispatcher
