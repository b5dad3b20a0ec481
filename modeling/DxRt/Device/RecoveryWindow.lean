import DxRt.Device.StopGate
import DxRt.Model.TaskData

/-! acc_device_task_layer.cpp: the recovery of a device, and the functions that use its DMA.

    Each function first waits at the stop gate. `RegisterTask` and `InferenceRequest` keep the pass
    in a local variable until they return; `InputHandler` and `OutputHandler` do not take it, so that
    it is destroyed at once. The recovery stops the gate, recovers the device and lets the gate go.
    A call of the service layer has a beginning and an end, and a function may leave, by a return or
    an exception, before or after any of its calls. -/

namespace DxRt.RecoveryWindow

/-- The calls of the service layer that reach the device. -/
inductive Call where
  | dmaWrite
  | dmaRead
  | handleInferenceAcc
  deriving DecidableEq

/-- The functions, with what decides which calls they make. -/
inductive Function where
  | registerTask (ppuBinary verify : Bool)
  | inferenceRequest
  | inputHandler (skipInferenceIo : Bool)
  | outputHandler (skipInferenceIo : Bool) (type : ModelType) (filtered : Bool)
  deriving DecidableEq

/-- What a function calls, in order, when it goes through. -/
def Function.calls : Function → List Call
  -- rmap and weight, the PPU binary, and rmap and weight back
  | .registerTask ppuBinary verify =>
    [.dmaWrite, .dmaWrite] ++ (if ppuBinary then [.dmaWrite] else []) ++
      if verify then [.dmaRead, .dmaRead] else []
  -- the request is only queued
  | .inferenceRequest => []
  | .inputHandler skipInferenceIo =>
    (if skipInferenceIo then [] else [.dmaWrite]) ++ [.handleInferenceAcc]
  | .outputHandler skipInferenceIo type filtered =>
    if (skipInferenceIo = false ∨ type ≠ .argmax) ∧ (type = .ppcpu → filtered) then [.dmaRead]
    else []

/-- `auto dmaPass = _dmaStopGate.WaitIfStopped()`. -/
def Function.keepsPass : Function → Bool
  | .registerTask .. | .inferenceRequest => true
  | .inputHandler .. | .outputHandler .. => false

/-- Threads: in a function of the layer, or in the recovery. -/
inductive Work where
  | gate (f : Function)
  -- the pass that is not taken is to be destroyed
  | discard (f : Function) (pass : StopGate.Pass)
  | run (f : Function) (pass : StopGate.Pass) (todo : List Call)
  | call (f : Function) (pass : StopGate.Pass) (call : Call) (todo : List Call)
  | leave (pass : StopGate.Pass)
  | setStop
  | drain
  | recover
  | finish
  deriving DecidableEq

/-- The gate, and whether a recovery is under way. The last two fields say what goes on: between the
    return of `SetStop(true)` and the call of `SetStop(false)`, and how many handlers are between the
    gate and their last call. -/
structure State where
  gate : StopGate
  recoveryPending : Bool
  window : Bool
  unguarded : ℕ

def init : State := ⟨⟨false, false, 0⟩, false, false, 0⟩

structure Circumstances where
  /-- The function leaves. -/
  leaves : Bool

inductive Arrival where
  | call (f : Function)
  /-- A DMA error or a timeout of the firmware. -/
  | error

/-- Between its gate and its last call; `InferenceRequest`, which makes none, until it returns. -/
def Work.inside : Work → Bool
  | .discard f _ => f.calls ≠ []
  | .run f _ todo => f.keepsPass || todo ≠ []
  | .call .. => true
  | .gate _ | .leave _ | .setStop | .drain | .recover | .finish => false

/-- In a handler, between its gate and its last call. -/
def Work.unguarded : Work → Bool
  | .discard f _ => f.calls ≠ []
  | .run f _ todo => !f.keepsPass && todo ≠ []
  | .call f .. => !f.keepsPass
  | .gate _ | .leave _ | .setStop | .drain | .recover | .finish => false

/-- The wait of `SetStop(true)`. -/
def State.waitDrained (s : State) : State × List Work :=
  if s.gate.drained then ({ s with window := true }, [.recover]) else (s, [.drain])

def step (s : State) (e : Circumstances) : Work → State × List Work
  | .gate f =>
    match s.gate.waitIfStopped with
    | none => (s, [.gate f])
    | some (pass, g) =>
      ({ s with gate := g }, [if f.keepsPass then .run f pass f.calls else .discard f pass])
  | .discard f pass =>
    ({ s with gate := (pass.release s.gate).2 }, [.run f (pass.release s.gate).1 f.calls])
  | .run f pass (call :: todo) => (s, [if e.leaves then .leave pass else .call f pass call todo])
  | .run _ pass [] => (s, [.leave pass])
  | .call f pass _ todo => (s, [if e.leaves then .leave pass else .run f pass todo])
  | .leave pass => ({ s with gate := (pass.release s.gate).2 }, [])
  | .setStop =>
    if s.gate.shuttingDown then ({ s with window := true }, [.recover])
    else { s with gate := { s.gate with stopFlag := true } }.waitDrained
  | .drain => s.waitDrained
  -- the device has been recovered
  | .recover => ({ s with gate := s.gate.resume, window := false }, [.finish])
  | .finish => ({ s with recoveryPending := false }, [])

def exec (s : State) (w : Work) (e : Circumstances) : Option (State × List Work) :=
  let (s', new) := step s e w
  some ({ s' with
    unguarded := s.unguarded + new.countP Work.unguarded - [w].countP Work.unguarded }, new)

/-- A recovery is started if none is pending. -/
def arrive (s : State) : Arrival → Option (State × List Work)
  | .call f => some (s, [.gate f])
  | .error =>
    if s.recoveryPending then some (s, []) else some ({ s with recoveryPending := true }, [.setStop])

def system : Workers.System State Work Circumstances Arrival := ⟨exec, arrive⟩

/-- `SetStop(true)` returns only when no handler is between its gate and its last call. -/
def HandlersDone (s : State) : Work → Circumstances → Prop
  | .setStop, _ | .drain, _ => s.gate.drained = true → s.unguarded = 0
  | _, _ => True

instance (s : State) : ∀ w e, Decidable (HandlersDone s w e)
  | .setStop, _ | .drain, _ => inferInstanceAs (Decidable (_ = _ → _ = _))
  | .gate _, _ | .discard .., _ | .run .., _ | .call .., _ | .leave _, _ | .recover, _
  | .finish, _ => .isTrue trivial

/-! ### The invariant -/

def Work.isRecovery : Work → Bool
  | .setStop | .drain | .recover | .finish => true
  | .gate _ | .discard .. | .run .. | .call .. | .leave _ => false

def Work.holds : Work → Bool
  | .discard _ pass | .run _ pass _ | .call _ pass .. | .leave pass => pass.active
  | .gate _ | .setStop | .drain | .recover | .finish => false

/-- A pass that is active is of the gate; and a function that keeps its pass has an active one. -/
def Work.Sound : Work → Prop
  | .discard f pass => (pass.active = true → pass.gate = true) ∧ f.keepsPass = false
  | .leave pass => pass.active = true → pass.gate = true
  | .run f pass _ | .call f pass .. =>
    (pass.active = true → pass.gate = true) ∧ (f.keepsPass = true → pass.active = true)
  | .gate _ | .setStop | .drain | .recover | .finish => True

/-- The gate counts the passes of the threads. There is one recovery at most; from its `SetStop(true)`
    on the gate is stopped, and in its window no pass is active and no handler has calls to make. -/
structure Inv (s : State) (work : List Work) : Prop where
  up : s.gate.shuttingDown = false
  counted : s.gate.activePasses = work.countP Work.holds
  unguarded : s.unguarded = work.countP Work.unguarded
  sound : ∀ w ∈ work, w.Sound
  one : work.countP Work.isRecovery = s.recoveryPending.toNat
  recover : .recover ∈ work ↔ s.window = true
  stopped : .drain ∈ work ∨ s.window = true → s.gate.stopFlag = true
  window : s.window = true → s.gate.activePasses = 0 ∧ s.unguarded = 0

theorem inv_init : Inv init [] where
  up := rfl
  counted := rfl
  unguarded := rfl
  sound _ h := nomatch h
  one := rfl
  recover := ⟨nofun, nofun⟩
  stopped h := h.elim nofun nofun
  window := nofun

theorem Inv.perm {s : State} {work work' : List Work} (h : Inv s work) (hp : work.Perm work') :
    Inv s work' where
  up := h.up
  counted := hp.countP_eq _ ▸ h.counted
  unguarded := hp.countP_eq _ ▸ h.unguarded
  sound w hmem := h.sound w (hp.mem_iff.mpr hmem)
  one := hp.countP_eq _ ▸ h.one
  recover := hp.mem_iff.symm.trans h.recover
  stopped hstop := h.stopped (hstop.imp_left hp.mem_iff.mpr)
  window := h.window

variable {s s' : State} {w : Work} {new n rest : List Work} {f : Function} {p : StopGate.Pass}
  {g : StopGate}

/-- In the window no function is on its way to a call. -/
theorem Inv.closed (h : Inv s rest) (hwindow : s.window = true) (hmem : w ∈ rest) :
    w.inside = false := by
  obtain ⟨hactive, hunguarded⟩ := h.window hwindow
  rw [h.counted, List.countP_eq_zero] at hactive
  rw [h.unguarded, List.countP_eq_zero] at hunguarded
  have hholds := hactive w hmem
  have hguarded := hunguarded w hmem
  have hsound := h.sound w hmem
  cases w with
  | gate f | leave pass | setStop | drain | recover | finish => rfl
  | discard f pass => simpa [Work.unguarded, Work.inside] using hguarded
  | run f pass todo =>
    cases hkeeps : f.keepsPass with
    | true => exact absurd (hsound.2 hkeeps) hholds
    | false => simpa [Work.unguarded, Work.inside, hkeeps] using hguarded
  | call f pass call todo =>
    cases hkeeps : f.keepsPass with
    | true => exact absurd (hsound.2 hkeeps) hholds
    | false => exact absurd (by simp [Work.unguarded, hkeeps]) hguarded

/-! ### Steps -/

/-- A thread that is not in the recovery goes on. -/
theorem Inv.thread (h : Inv s (w :: rest)) (hw : w.isRecovery = false)
    (hnew : ∀ w' ∈ n, w'.isRecovery = false ∧ w'.Sound) (hdown : g.shuttingDown = false)
    (hflag : g.stopFlag = s.gate.stopFlag)
    (hcount : g.activePasses + [w].countP Work.holds = s.gate.activePasses + n.countP Work.holds)
    (hwindow : s.gate.stopFlag = true → n.countP Work.holds ≤ [w].countP Work.holds ∧
      n.countP Work.unguarded ≤ [w].countP Work.unguarded) :
    Inv { s with gate := g, unguarded :=
      s.unguarded + n.countP Work.unguarded - [w].countP Work.unguarded } (n ++ rest) := by
  have hcounted := h.counted
  have hunguarded := h.unguarded
  have hone := h.one
  rw [← List.singleton_append, List.countP_append] at hcounted hunguarded hone
  have hnone : [w].countP Work.isRecovery = 0 ∧ n.countP Work.isRecovery = 0 := by
    constructor <;> rw [List.countP_eq_zero]
    · intro w' hmem
      rw [List.mem_singleton.mp hmem, hw]
      exact Bool.false_ne_true
    · intro w' hmem
      rw [(hnew w' hmem).1]
      exact Bool.false_ne_true
  have hmem : ∀ {w'}, w'.isRecovery = true → (w' ∈ n ++ rest ↔ w' ∈ w :: rest) := by
    intro w' hrec
    rw [List.mem_append, List.mem_cons]
    refine or_congr ⟨fun hin => ?_, fun heq => ?_⟩ Iff.rfl
    · rw [(hnew w' hin).1] at hrec
      cases hrec
    · rw [heq, hw] at hrec
      cases hrec
  refine ⟨hdown, ?_, ?_, fun w' hin => ?_, ?_, ?_, fun hstop => ?_, fun hopen => ?_⟩
  · show g.activePasses = _
    rw [List.countP_append]
    omega
  · show s.unguarded + _ - _ = _
    rw [List.countP_append]
    omega
  · rcases List.mem_append.mp hin with hin | hin
    · exact (hnew w' hin).2
    · exact h.sound w' (List.mem_cons_of_mem _ hin)
  · show _ = s.recoveryPending.toNat
    rw [List.countP_append]
    omega
  · exact (hmem rfl).trans h.recover
  · exact hflag.trans (h.stopped (hstop.imp_left (hmem rfl).mp))
  · obtain ⟨hactive, hzero⟩ := h.window hopen
    obtain ⟨hholds, hless⟩ := hwindow (h.stopped (Or.inr hopen))
    show g.activePasses = 0 ∧ s.unguarded + _ - _ = 0
    omega

theorem Work.not_counted (hw : w.isRecovery = true) :
    w.holds = false ∧ w.unguarded = false ∧ w.Sound := by
  cases w <;> first | exact ⟨rfl, rfl, trivial⟩ | cases hw

/-- The recovery goes on: it is the only one. -/
theorem Inv.recovery {pending window : Bool} (h : Inv s (w :: rest)) (hw : w.isRecovery = true)
    (hnew : ∀ w' ∈ n, w'.isRecovery = true) (hdown : g.shuttingDown = false)
    (hactive : g.activePasses = s.gate.activePasses) (hone : n.length = pending.toNat)
    (hrecover : .recover ∈ n ↔ window = true)
    (hstopped : .drain ∈ n ∨ window = true → g.stopFlag = true)
    (hwindow : window = true → s.gate.activePasses = 0 ∧ s.unguarded = 0) :
    Inv ⟨g, pending, window, s.unguarded + n.countP Work.unguarded - [w].countP Work.unguarded⟩
      (n ++ rest) := by
  obtain ⟨hholds, hguarded, -⟩ := Work.not_counted hw
  have hzero : n.countP Work.holds = 0 ∧ n.countP Work.unguarded = 0 := by
    constructor <;> rw [List.countP_eq_zero] <;> intro w' hmem
    · simp [(Work.not_counted (hnew w' hmem)).1]
    · simp [(Work.not_counted (hnew w' hmem)).2.1]
  have hlast : rest.countP Work.isRecovery = 0 := by
    have hcount := h.one
    rw [List.countP_cons_of_pos hw] at hcount
    have hle := Bool.toNat_le s.recoveryPending
    omega
  have hnone : ∀ {w'}, w'.isRecovery = true → w' ∈ n ++ rest → w' ∈ n := by
    intro w' hrec hin
    refine (List.mem_append.mp hin).resolve_right fun hmem => ?_
    exact List.countP_eq_zero.mp hlast w' hmem hrec
  have hunguarded : s.unguarded + n.countP Work.unguarded - [w].countP Work.unguarded =
      s.unguarded := by
    rw [hzero.2, List.countP_cons_of_neg (by simp [hguarded])]
    rfl
  have hcounted := h.counted
  have hcount := h.unguarded
  rw [List.countP_cons_of_neg (by simp [hholds])] at hcounted
  rw [List.countP_cons_of_neg (by simp [hguarded])] at hcount
  rw [hunguarded]
  refine ⟨hdown, ?_, ?_, fun w' hin => ?_, ?_, ⟨fun hin => hrecover.mp (hnone rfl hin), fun hopen =>
    List.mem_append_left _ (hrecover.mpr hopen)⟩, fun hstop => hstopped (hstop.imp_left (hnone rfl)),
    fun hopen => ⟨hactive.trans (hwindow hopen).1, (hwindow hopen).2⟩⟩
  · rw [List.countP_append, hzero.1, Nat.zero_add, ← hcounted]
    exact hactive
  · rw [List.countP_append, hzero.2, Nat.zero_add]
    exact hcount
  · rcases List.mem_append.mp hin with hin | hin
    · exact (Work.not_counted (hnew w' hin)).2.2
    · exact h.sound w' (List.mem_cons_of_mem _ hin)
  · rw [List.countP_append, hlast, Nat.add_zero, ← hone, List.countP_eq_length]
    exact hnew

/-- A thread releases its pass. -/
theorem Inv.release (h : Inv s (w :: rest)) (hholds : w.holds = p.active)
    (hwhole : p.active = true → p.gate = true) :
    (p.release s.gate).1.active = false ∧
    (p.release s.gate).2.activePasses + (if p.active then 1 else 0) = s.gate.activePasses ∧
    (p.release s.gate).2.stopFlag = s.gate.stopFlag ∧
    (p.release s.gate).2.shuttingDown = false := by
  have hpos : p.active = true → 0 < s.gate.activePasses := fun hactive => by
    rw [h.counted, List.countP_cons_of_pos (hholds.trans hactive)]
    exact Nat.succ_pos _
  obtain ⟨hactive, hcount, hflag, hdown⟩ := StopGate.release_spec hpos hwhole
  exact ⟨hactive, hcount, hflag, hdown.trans h.up⟩

theorem Inv.gate (h : Inv s (.gate f :: rest)) {e : Circumstances}
    (hexec : exec s (.gate f) e = some (s', new)) : Inv s' (new ++ rest) := by
  simp only [exec, step, StopGate.waitIfStopped, h.up] at hexec
  cases hflag : s.gate.stopFlag with
  | true =>
    simp only [hflag, and_self, if_true] at hexec
    obtain ⟨rfl, rfl⟩ := Prod.mk.inj (Option.some.inj hexec)
    refine h.thread rfl (fun w' hmem => ?_) h.up rfl rfl fun _ => ⟨le_rfl, le_rfl⟩
    rw [List.mem_singleton.mp hmem]
    exact ⟨rfl, trivial⟩
  | false =>
    simp only [hflag, Bool.false_eq_true, false_and, if_false] at hexec
    obtain ⟨rfl, rfl⟩ := Prod.mk.inj (Option.some.inj hexec)
    refine h.thread (g := ⟨_, _, _⟩) rfl (fun w' hmem => ?_) rfl hflag.symm ?_ fun hstop => ?_
    · rw [List.mem_singleton.mp hmem]
      split_ifs with hkeeps
      · exact ⟨rfl, fun _ => rfl, fun _ => rfl⟩
      · exact ⟨rfl, fun _ => rfl, by simpa using hkeeps⟩
    · cases hkeeps : f.keepsPass <;> rfl
    · rw [hflag] at hstop
      cases hstop

theorem Inv.discard (h : Inv s (.discard f p :: rest)) {e : Circumstances}
    (hexec : exec s (.discard f p) e = some (s', new)) : Inv s' (new ++ rest) := by
  obtain ⟨rfl, rfl⟩ := Prod.mk.inj (Option.some.inj hexec)
  obtain ⟨hwhole, hkeeps⟩ := h.sound _ (List.mem_cons_self ..)
  obtain ⟨hactive, hcount, hflag, hdown⟩ := h.release (p := p) rfl hwhole
  refine h.thread rfl (fun w' hmem => ?_) hdown hflag ?_ fun _ => ?_
  · rw [List.mem_singleton.mp hmem]
    refine ⟨rfl, fun hpass => ?_, fun hkeep => ?_⟩
    · rw [hactive] at hpass
      cases hpass
    · rw [hkeeps] at hkeep
      cases hkeep
  · rw [List.countP_singleton, List.countP_singleton]
    show _ + (if p.active = true then 1 else 0) =
      _ + if (p.release s.gate).1.active = true then 1 else 0
    rw [hactive]
    exact hcount
  · simp [List.countP_singleton, Work.holds, Work.unguarded, hactive, hkeeps]

theorem Inv.leave (h : Inv s (.leave p :: rest)) {e : Circumstances}
    (hexec : exec s (.leave p) e = some (s', new)) : Inv s' (new ++ rest) := by
  obtain ⟨rfl, rfl⟩ := Prod.mk.inj (Option.some.inj hexec)
  obtain ⟨-, hcount, hflag, hdown⟩ := h.release (p := p) rfl (h.sound _ (List.mem_cons_self ..))
  refine h.thread rfl nofun hdown hflag ?_ fun _ => ⟨Nat.zero_le _, Nat.zero_le _⟩
  rw [List.countP_singleton]
  exact hcount

/-- A thread that leaves the gate alone goes on, with the pass it has. -/
theorem Inv.work {w' : Work} (h : Inv s (w :: rest)) (hw : w.isRecovery = false)
    (hw' : w'.isRecovery = false) (hsound : w.Sound → w'.Sound) (hholds : w'.holds = w.holds)
    (hunguarded : w'.unguarded = true → w.unguarded = true) :
    Inv { s with unguarded :=
      s.unguarded + [w'].countP Work.unguarded - [w].countP Work.unguarded } (w' :: rest) := by
  refine h.thread (n := [w']) hw (fun w'' hmem => ?_) h.up rfl ?_ fun _ => ⟨?_, ?_⟩
  · rw [List.mem_singleton.mp hmem]
    exact ⟨hw', hsound (h.sound w (List.mem_cons_self ..))⟩
  · rw [List.countP_singleton, List.countP_singleton, hholds]
  · rw [List.countP_singleton, List.countP_singleton, hholds]
  · rw [List.countP_singleton, List.countP_singleton]
    cases hw'' : w'.unguarded with
    | true => rw [hunguarded hw'']
    | false => exact Nat.zero_le _

/-- There is no other recovery, and a recovery is pending. -/
theorem Inv.alone (h : Inv s (w :: rest)) (hw : w.isRecovery = true) :
    s.recoveryPending = true ∧ (w ≠ .recover → s.window = false) := by
  have hone := h.one
  rw [List.countP_cons_of_pos hw] at hone
  have hle := Bool.toNat_le s.recoveryPending
  refine ⟨?_, fun hne => ?_⟩
  · cases hpending : s.recoveryPending with
    | true => rfl
    | false =>
      rw [hpending] at hone
      simp at hone
  · cases hwindow : s.window with
    | false => rfl
    | true =>
      rcases List.mem_cons.mp (h.recover.mpr hwindow) with heq | hin
      · exact absurd heq.symm hne
      · have hpos := List.countP_pos_iff (p := Work.isRecovery).mpr ⟨_, hin, rfl⟩
        omega

/-- The wait of `SetStop(true)`, on a gate that has been stopped. -/
theorem Inv.waitDrained {s₁ : State} {e : Circumstances} (h : Inv s (w :: rest))
    (hw : w = .setStop ∨ w = .drain) (hok : HandlersDone s w e)
    (hs₁ : s₁ = { s with gate := { s.gate with stopFlag := true } }) :
    Inv { s₁.waitDrained.1 with unguarded :=
      s.unguarded + s₁.waitDrained.2.countP Work.unguarded - [w].countP Work.unguarded }
      (s₁.waitDrained.2 ++ rest) := by
  have hrec : w.isRecovery = true := by rcases hw with rfl | rfl <;> rfl
  obtain ⟨hpending, hwindow⟩ := h.alone hrec
  have hclosed : s.window = false := hwindow (by rcases hw with rfl | rfl <;> simp)
  have hdown : s₁.gate.shuttingDown = false := by rw [hs₁]; exact h.up
  rw [State.waitDrained]
  split_ifs with hdrained
  · have hzero : s₁.gate.activePasses = 0 := by simpa [StopGate.drained, hdown] using hdrained
    have hactive : s.gate.activePasses = 0 := by rwa [hs₁] at hzero
    have hdone : s.unguarded = 0 := by
      have hall : s.gate.drained = true := by simp [StopGate.drained, hactive]
      rcases hw with rfl | rfl <;> exact hok hall
    subst hs₁
    refine h.recovery (g := { s.gate with stopFlag := true }) (n := [.recover]) hrec
      (fun w' hmem => ?_) h.up rfl (congrArg Bool.toNat hpending).symm
      ⟨fun _ => rfl, fun _ => List.mem_singleton.mpr rfl⟩ (fun _ => rfl) fun _ => ⟨hactive, hdone⟩
    rw [List.mem_singleton.mp hmem]
    rfl
  · subst hs₁
    refine h.recovery (g := { s.gate with stopFlag := true }) (n := [.drain]) hrec
      (fun w' hmem => ?_) h.up rfl (congrArg Bool.toNat hpending).symm
      ⟨fun hin => absurd (List.mem_singleton.mp hin) (by simp), fun hopen => ?_⟩ (fun _ => rfl)
      fun hopen => ?_
    · rw [List.mem_singleton.mp hmem]
      rfl
    · rw [hclosed] at hopen
      cases hopen
    · rw [hclosed] at hopen
      cases hopen

theorem Inv.exec {e : Circumstances} (h : Inv s (w :: rest)) (hok : HandlersDone s w e)
    (hexec : exec s w e = some (s', new)) : Inv s' (new ++ rest) := by
  cases w with
  | gate f => exact h.gate hexec
  | discard f p => exact h.discard hexec
  | leave p => exact h.leave hexec
  | run f p todo =>
    cases todo with
    | nil =>
      obtain ⟨rfl, rfl⟩ := Prod.mk.inj (Option.some.inj hexec)
      exact h.work rfl rfl (fun hsound => hsound.1) rfl (by simp [Work.unguarded])
    | cons call todo =>
      obtain ⟨rfl, rfl⟩ := Prod.mk.inj (Option.some.inj hexec)
      split_ifs
      · exact h.work rfl rfl (fun hsound => hsound.1) rfl (by simp [Work.unguarded])
      · refine h.work rfl rfl (fun hsound => hsound) rfl fun hun => ?_
        simpa [Work.unguarded] using hun
  | call f p call todo =>
    obtain ⟨rfl, rfl⟩ := Prod.mk.inj (Option.some.inj hexec)
    split_ifs
    · exact h.work rfl rfl (fun hsound => hsound.1) rfl (by simp [Work.unguarded])
    · refine h.work rfl rfl (fun hsound => hsound) rfl fun hun => ?_
      rw [Work.unguarded, Bool.and_eq_true] at hun
      exact hun.1
  | setStop =>
    have hstep : step s e .setStop =
        { s with gate := { s.gate with stopFlag := true } }.waitDrained := if_neg (by simp [h.up])
    rw [RecoveryWindow.exec, hstep] at hexec
    obtain ⟨rfl, rfl⟩ := Prod.mk.inj (Option.some.inj hexec)
    exact h.waitDrained (Or.inl rfl) hok rfl
  | drain =>
    obtain ⟨rfl, rfl⟩ := Prod.mk.inj (Option.some.inj hexec)
    refine h.waitDrained (Or.inr rfl) hok ?_
    rw [← h.stopped (Or.inl (List.mem_cons_self ..))]
  | recover =>
    obtain ⟨rfl, rfl⟩ := Prod.mk.inj (Option.some.inj hexec)
    obtain ⟨hpending, -⟩ := h.alone rfl
    have hresume : s.gate.resume = { s.gate with stopFlag := false } := by
      rw [StopGate.resume, if_neg (by simp [h.up])]
    rw [hresume]
    refine h.recovery (g := { s.gate with stopFlag := false }) (n := [.finish]) rfl
      (fun w' hmem => ?_) h.up rfl (congrArg Bool.toNat hpending).symm
      ⟨fun hin => absurd (List.mem_singleton.mp hin) (by simp), by simp⟩
      (fun hstop => hstop.elim (fun hin => absurd (List.mem_singleton.mp hin) (by simp)) (by simp)) (by simp)
    rw [List.mem_singleton.mp hmem]
    rfl
  | finish =>
    obtain ⟨rfl, rfl⟩ := Prod.mk.inj (Option.some.inj hexec)
    obtain ⟨-, hwindow⟩ := h.alone rfl
    have hclosed : s.window = false := hwindow (by simp)
    refine h.recovery (g := s.gate) (n := []) rfl (List.forall_mem_nil _) h.up rfl rfl
      ⟨by simp, fun hopen => ?_⟩ (fun hstop => ?_) fun hopen => ?_
    · rw [hclosed] at hopen
      cases hopen
    · rw [hclosed] at hstop
      exact hstop.elim (by simp) (by simp)
    · rw [hclosed] at hopen
      cases hopen

theorem Inv.arrive {work : List Work} {a : Arrival} (h : Inv s work)
    (harrive : arrive s a = some (s', new)) : Inv s' (new ++ work) := by
  cases a with
  | call f =>
    obtain ⟨rfl, rfl⟩ := Prod.mk.inj (Option.some.inj harrive)
    refine ⟨h.up, h.counted, h.unguarded, fun w hmem => ?_, h.one, ?_, fun hstop => h.stopped
      (hstop.imp_left (List.mem_of_ne_of_mem (y := .gate f) nofun)), h.window⟩
    · rcases List.mem_cons.mp hmem with rfl | hmem
      · trivial
      · exact h.sound w hmem
    · rw [List.singleton_append, List.mem_cons]
      exact (or_iff_right nofun).trans h.recover
  | error =>
    simp only [RecoveryWindow.arrive] at harrive
    split_ifs at harrive with hpending
    · obtain ⟨rfl, rfl⟩ := Prod.mk.inj (Option.some.inj harrive)
      exact h
    · obtain ⟨rfl, rfl⟩ := Prod.mk.inj (Option.some.inj harrive)
      have hone := h.one
      rw [Bool.not_eq_true] at hpending
      rw [hpending] at hone
      refine ⟨h.up, h.counted, h.unguarded, fun w hmem => ?_, ?_, ?_, fun hstop => h.stopped
        (hstop.imp_left (List.mem_of_ne_of_mem (y := .setStop) nofun)), h.window⟩
      · rcases List.mem_cons.mp hmem with rfl | hmem
        · trivial
        · exact h.sound w hmem
      · rw [List.singleton_append, List.countP_cons_of_pos rfl, hone]
        rfl
      · rw [List.singleton_append, List.mem_cons]
        exact (or_iff_right nofun).trans h.recover

/-! ### Runs -/

/-- In a run in which `SetStop(true)` returns only when no handler is on its way to a call, no
    function is between its gate and its last call while the device recovers. -/
theorem recovery_undisturbed {c : Workers.Config State Work}
    (hrun : Relation.ReflTransGen (Workers.Step system HandlersDone fun _ _ => True)
      ⟨init, []⟩ c) (hwindow : c.shared.window = true) : ∀ w ∈ c.work, w.inside = false := by
  have hinv : Inv c.shared c.work := Workers.invariant (fun _ _ _ hp h => h.perm hp)
    (fun _ _ _ _ _ _ h hok hexec => h.exec hok hexec)
    (fun _ _ _ _ _ h _ harrive => h.arrive harrive) hrun inv_init
  exact fun w hmem => hinv.closed hwindow hmem

/-- A task is being registered when an error comes; the recovery waits until it is, while a request
    waits at the gate. -/
def errorDuringRegistration : List (Workers.Choice Circumstances Arrival) :=
  [.arrive (.call (.registerTask false false)), .work 0 ⟨false⟩, .work 0 ⟨false⟩, .arrive .error,
    .work 0 ⟨false⟩, .work 0 ⟨false⟩, .arrive (.call (.inputHandler false)), .work 0 ⟨false⟩] ++
    .replicate 5 (.work 2 ⟨false⟩) ++ [.work 1 ⟨false⟩]

theorem recovery_undisturbed_by_registration : ∃ c, Workers.play system HandlersDone
    (fun _ _ => True) ⟨init, []⟩ errorDuringRegistration = some c ∧ c.shared.window = true ∧
    c.work = [.gate (.inputHandler false), .recover] ∧ ∀ w ∈ c.work, w.inside = false := by
  have hplay : ∃ c, Workers.play system HandlersDone (fun _ _ => True) ⟨init, []⟩
      errorDuringRegistration = some c ∧ c.shared.window = true ∧
      c.work = [.gate (.inputHandler false), .recover] :=
    ⟨_, rfl, rfl, rfl⟩
  obtain ⟨c, hc, hwindow, hwork⟩ := hplay
  exact ⟨c, hc, hwindow, hwork, recovery_undisturbed (Workers.play_run hc) hwindow⟩

/-- The input handler is past the gate, and its pass is gone, when the recovery stops the gate. -/
def errorBeforeInput : List (Workers.Choice Circumstances Arrival) :=
  [.arrive (.call (.inputHandler false)), .work 0 ⟨false⟩, .work 0 ⟨false⟩, .arrive .error,
    .work 0 ⟨false⟩, .work 1 ⟨false⟩]

/-- The input is written to a device that is being recovered. -/
theorem input_written_during_recovery : ∃ c, Workers.play system (fun _ _ _ => True)
    (fun _ _ => True) ⟨init, []⟩ errorBeforeInput = some c ∧ c.shared.window = true ∧
    .call (.inputHandler false) .empty .dmaWrite [.handleInferenceAcc] ∈ c.work :=
  ⟨_, rfl, rfl, by decide⟩

end DxRt.RecoveryWindow
