import DxRt.Scheduler.Clear
import DxRt.Service.DmaReplies

/-! lib/dxrt_service/dxrt_service_v2.cpp: device recovery.

    `RecoveryBroadcastAndWait` raises `_recoveryInProgress` and waits until no DMA transfer is
    pending, the device is recovered, and `ResumeAfterRecovery` clears the load counters and lowers
    the flag. The handlers of DMA and inference requests read the flag in one step and act in a later
    one, so a handler that read it before it was raised may act at any time: during the recovery, or
    after it. The handler threads and the transfers are the work items; the recovery thread is a field
    of the state, and what the devices and the stop functions do to the scheduler arrives from
    outside. -/

namespace DxRt

def EALREADY : ℤ := 114

namespace RecoveryService
open Scheduler

/-- Where the recovery thread is; from `paused` on, with the result of `WaitForDMACompletion`. -/
inductive Stage where
  | idle
  | waiting
  | paused (completed : Bool)
  | recovered (completed : Bool)
  | cleared (completed : Bool)
  deriving DecidableEq

/-- `WaitForDMACompletion` has reported completion, and the flag is still up. -/
def Stage.drained : Stage → Bool
  | .paused completed | .recovered completed | .cleared completed => completed
  | .idle | .waiting => false

/-- The service. `recoveries` counts the recoveries begun, and `cleared` is the length of the
    scheduler's log at the last `ClearAllLoad`. -/
structure State (p : Policy) (n : ℕ) where
  scheduler : Scheduler p n
  recoveryInProgress : Bool
  pendingDmaOperations : ℕ
  stage : Stage
  recoveries : ℕ
  cleared : ℕ

inductive Work (n : ℕ) where
  /-- `HandleDMARead` or `HandleDMAWrite`, at its start. -/
  | dmaRequest (p : DmaPacket)
  /-- It has read the flag, when that many recoveries had begun. -/
  | dmaPermitted (p : DmaPacket) (recoveries : ℕ)
  /-- In a queue of a device, or in the driver. -/
  | dma (header : DmaHeader) (memInfo : MemInfo)
  /-- `HandleInferenceRequest`, at its start. -/
  | inferenceRequest (pid : ℤ) (request : Request) (deviceId : Fin n)
  /-- It has called `HasPendingRequest`. -/
  | notPending (request : Request) (deviceId : Fin n)
  /-- It has read the flag. -/
  | permitted (request : Request) (deviceId : Fin n)
  deriving DecidableEq

/-- What a handler finds, and what the devices answer to the scheduler. -/
structure Circumstances where
  table : HandleTable
  memAddr : List ℕ
  isTaskValid : Bool
  isBlocked : Bool
  env : Env

inductive Arrival (n : ℕ) where
  | dmaRequest (p : DmaPacket)
  | inferenceRequest (pid : ℤ) (request : Request) (deviceId : Fin n)
  /-- `FinishJobs` or a stop function. -/
  | call (op : Op n)
  /-- The recovery thread goes on. -/
  | recovery (timedOut : Bool)

variable {p : Policy} {n : ℕ}

def init (p : Policy) (n : ℕ) : Workers.Config (State p n) (Work n) :=
  ⟨⟨Scheduler.init p n, false, 0, .idle, 0, 0⟩, []⟩

def Work.isDma : Work n → Bool
  | .dma .. => true
  | _ => false

/-! ### The DMA handlers -/

def context (s : State p n) (e : Circumstances) : DmaContext :=
  ⟨e.table, e.memAddr, s.recoveryInProgress⟩

/-- The handler up to the flag: the return code, if it ends there. -/
def dmaTests (context : DmaContext) (packet : DmaPacket) : Option ℤ :=
  if packet.size = 0 then some 0
  else if packet.header.deviceId < 0 ∨
      (context.memAddr.length : ℤ) ≤ packet.header.deviceId then some (-EINVAL)
  else if context.recoveryInProgress then some (-EAGAIN)
  else none

/-- The rest of the handler, which does not read the flag again. -/
def dmaSubmit (context : DmaContext) (packet : DmaPacket) : DmaOutcome :=
  DmaService.handleDMA { context with recoveryInProgress := false } packet

/-- When nothing happens in between, the two parts are the handler. -/
theorem handleDMA_parts (context : DmaContext) (packet : DmaPacket) :
    DmaService.handleDMA context packet =
      match dmaTests context packet with
      | some returnCode => ⟨returnCode, none, none⟩
      | none => dmaSubmit context packet := by
  simp only [dmaTests, dmaSubmit, DmaService.handleDMA, DmaContext.handleDMA]
  split_ifs <;> simp_all

/-! ### The handler of inference requests -/

/-- `HandleInferenceRequest` up to the flag: the return code, if it ends there. The process is the one
    that sent the packet. -/
def inferenceTests (s : State p n) (e : Circumstances) (pid : ℤ) (request : Request) : Option ℤ :=
  if e.isTaskValid = false then some (-1)
  else if s.scheduler.hasPendingRequest (pid, request.reqId) then some (-EALREADY)
  else none

def recoveryTest (s : State p n) : Option ℤ :=
  if s.recoveryInProgress then some (-EAGAIN) else none

/-! ### Steps -/

def exec (s : State p n) : Work n → Circumstances → Option (State p n × List (Work n))
  | .dmaRequest packet, e =>
    match dmaTests (context s e) packet with
    | some _ => some (s, [])
    | none => some (s, [.dmaPermitted packet s.recoveries])
  | .dmaPermitted packet _, e =>
    match (dmaSubmit (context s e) packet).meminfo with
    | some memInfo =>
      some ({ s with pendingDmaOperations := s.pendingDmaOperations + 1 }, [.dma packet.header memInfo])
    | none => some (s, [])
  -- the completion callback; the counter stays at zero
  | .dma .., _ => some ({ s with pendingDmaOperations := s.pendingDmaOperations - 1 }, [])
  | .inferenceRequest pid request d, e =>
    match inferenceTests s e pid request with
    | some _ => some (s, [])
    | none => some (s, [.notPending request d])
  | .notPending request d, _ =>
    match recoveryTest s with
    | some _ => some (s, [])
    | none => some (s, [.permitted request d])
  | .permitted request d, e =>
    if e.isBlocked then some (s, [])
    else some ({ s with scheduler := s.scheduler.addScheduler e.env request d }, [])

/-- The recovery thread: `RecoveryBroadcastAndWait` up to the wait, the end of the wait, the recovery
    of the device, and the two steps of `ResumeAfterRecovery`. A wait that runs out of time reads the
    counter once more. -/
def advance (s : State p n) (timedOut : Bool) : Option (State p n) :=
  match s.stage with
  | .idle =>
    some { s with recoveryInProgress := true, stage := .waiting, recoveries := s.recoveries + 1 }
  | .waiting =>
    if s.pendingDmaOperations = 0 then some { s with stage := .paused true }
    else if timedOut then some { s with stage := .paused false }
    else none
  | .paused completed => some { s with stage := .recovered completed }
  | .recovered completed =>
    some { s with
      scheduler := s.scheduler.clearAllLoad, stage := .cleared completed
      cleared := s.scheduler.log.length }
  | .cleared _ => some { s with recoveryInProgress := false, stage := .idle }

def arrive (s : State p n) : Arrival n → Option (State p n × List (Work n))
  | .dmaRequest packet => some (s, [.dmaRequest packet])
  | .inferenceRequest pid request d => some (s, [.inferenceRequest pid request d])
  -- only the handler adds requests
  | .call (.addScheduler ..) => none
  | .call op => some ({ s with scheduler := s.scheduler.exec op }, [])
  | .recovery timedOut => (advance s timedOut).map fun s => (s, [])

def system : Workers.System (State p n) (Work n) Circumstances (Arrival n) := ⟨exec, arrive⟩

/-! ### What a recovery must not disturb -/

/-- No transfer is outstanding. -/
def NoDma (c : Workers.Config (State p n) (Work n)) : Prop :=
  c.shared.pendingDmaOperations = 0 ∧ ∀ w ∈ c.work, w.isDma = false

/-- From the report of `WaitForDMACompletion` until the flag is cleared no transfer is outstanding,
    and every request can still be completed. -/
structure Recovers (c : Workers.Config (State p n) (Work n)) : Prop where
  quiet : c.shared.stage.drained = true → NoDma c
  completable : Completable c.shared.cleared c.shared.scheduler

/-- A handler that read the flag before the recovery raised it submits no transfer between the report
    and the clearing. -/
def Timely (s : State p n) : Work n → Circumstances → Prop
  | .dmaPermitted packet recoveries, e =>
    s.stage.drained = true → recoveries < s.recoveries →
      (dmaSubmit (context s e) packet).meminfo = none
  | _, _ => True

/-- The responses are to submissions that are counted, and nothing is RUNNING when the counters are
    cleared. -/
def Settled (s : State p n) : Arrival n → Prop
  | .call op => AnswersCounted s.cleared s.scheduler op
  | .recovery _ => ∀ completed, s.stage = .recovered completed → s.scheduler.noneRunning = true
  | _ => True

instance (s : State p n) : ∀ w e, Decidable (Timely s w e)
  | .dmaPermitted .., _ => inferInstanceAs (Decidable (_ = true → _ → _ = none))
  | .dmaRequest .., _ | .dma .., _ | .inferenceRequest .., _ | .notPending .., _
  | .permitted .., _ => .isTrue trivial

instance (s : State p n) : ∀ a, Decidable (Settled s a)
  | .call _ => inferInstanceAs (Decidable (AnswersCounted _ _ _))
  | .recovery _ => inferInstanceAs (Decidable (∀ _ : Bool, _ = _ → _ = true))
  | .dmaRequest _ | .inferenceRequest .. => .isTrue trivial

/-! ### What a step keeps -/

variable {s s' : State p n} {w : Work n} {work new : List (Work n)} {e : Circumstances}

/-- A handler that has read the flag did so before the recovery raised it. -/
def ReadBefore (s : State p n) : Work n → Prop
  | .dmaPermitted _ recoveries =>
    recoveries ≤ s.recoveries ∧ (s.stage ≠ .idle → recoveries < s.recoveries)
  | _ => True

structure Inv (s : State p n) (work : List (Work n)) : Prop where
  pending : s.pendingDmaOperations = work.countP Work.isDma
  quiet : s.stage.drained = true → s.pendingDmaOperations = 0
  flag : s.stage ≠ .idle → s.recoveryInProgress = true
  read : ∀ w ∈ work, ReadBefore s w
  clear : ClearInv s.cleared s.scheduler

theorem inv_init (p : Policy) (n : ℕ) : Inv (init p n).shared (init p n).work :=
  ⟨rfl, nofun, fun h => absurd rfl h, fun _ hw => absurd hw List.not_mem_nil, clearInv_init p n⟩

theorem Inv.perm {work' : List (Work n)} (hperm : work.Perm work') (h : Inv s work) :
    Inv s work' :=
  ⟨h.pending.trans (hperm.countP_eq _), h.quiet, h.flag,
    fun w hw => h.read w (hperm.mem_iff.mpr hw), h.clear⟩

theorem Inv.recovers (h : Inv s work) : Recovers ⟨s, work⟩ := by
  refine ⟨fun hdrained => ⟨h.quiet hdrained, fun w hw => ?_⟩, h.clear.completable⟩
  have hcount : work.countP Work.isDma = 0 := h.pending.symm.trans (h.quiet hdrained)
  exact Bool.eq_false_iff.mpr (List.countP_eq_zero.mp hcount w hw)

/-- A handler goes on, submits its transfer or adds its request, or a transfer completes. Only with the
    flag down does a DMA handler go on. -/
theorem exec_cases (hexec : exec s w e = some (s', new)) :
    (s' = s ∧ w.isDma = false ∧ new.countP Work.isDma = 0 ∧
      ∀ packet r, .dmaPermitted packet r ∈ new →
        r = s.recoveries ∧ s.recoveryInProgress = false) ∨
    (∃ packet r memInfo, w = .dmaPermitted packet r ∧
      (dmaSubmit (context s e) packet).meminfo = some memInfo ∧
      s' = { s with pendingDmaOperations := s.pendingDmaOperations + 1 } ∧
      new = [.dma packet.header memInfo]) ∨
    (∃ header memInfo, w = .dma header memInfo ∧
      s' = { s with pendingDmaOperations := s.pendingDmaOperations - 1 } ∧ new = []) ∨
    ∃ request d, w = .permitted request d ∧
      s' = { s with scheduler := s.scheduler.addScheduler e.env request d } ∧ new = [] := by
  cases w with
  | dmaRequest packet =>
    rw [exec] at hexec
    split at hexec
    · cases hexec
      exact Or.inl ⟨rfl, rfl, rfl, fun _ _ hmem => absurd hmem List.not_mem_nil⟩
    · next htests =>
      cases hexec
      refine Or.inl ⟨rfl, rfl, rfl, fun packet' r hmem => ?_⟩
      cases List.mem_singleton.mp hmem
      refine ⟨rfl, Bool.eq_false_iff.mpr fun hflag => ?_⟩
      simp only [dmaTests, context, hflag, if_true] at htests
      split_ifs at htests
  | dmaPermitted packet r =>
    rw [exec] at hexec
    split at hexec
    · next memInfo hsubmit =>
      cases hexec
      exact Or.inr (Or.inl ⟨packet, r, memInfo, rfl, hsubmit, rfl, rfl⟩)
    · cases hexec
      exact Or.inl ⟨rfl, rfl, rfl, fun _ _ hmem => absurd hmem List.not_mem_nil⟩
  | dma header memInfo =>
    cases hexec
    exact Or.inr (Or.inr (Or.inl ⟨header, memInfo, rfl, rfl, rfl⟩))
  | inferenceRequest pid request d =>
    rw [exec] at hexec
    split at hexec
    · cases hexec
      exact Or.inl ⟨rfl, rfl, rfl, fun _ _ hmem => absurd hmem List.not_mem_nil⟩
    · cases hexec
      exact Or.inl ⟨rfl, rfl, rfl, by simp⟩
  | notPending request d =>
    rw [exec] at hexec
    split at hexec
    · cases hexec
      exact Or.inl ⟨rfl, rfl, rfl, fun _ _ hmem => absurd hmem List.not_mem_nil⟩
    · cases hexec
      exact Or.inl ⟨rfl, rfl, rfl, by simp⟩
  | permitted request d =>
    rw [exec] at hexec
    split at hexec
    · cases hexec
      exact Or.inl ⟨rfl, rfl, rfl, fun _ _ hmem => absurd hmem List.not_mem_nil⟩
    · cases hexec
      exact Or.inr (Or.inr (Or.inr ⟨request, d, rfl, rfl, rfl⟩))

theorem Inv.exec {rest : List (Work n)} (h : Inv s (w :: rest)) (hok : Timely s w e)
    (hexec : exec s w e = some (s', new)) : Inv s' (new ++ rest) := by
  obtain ⟨hpending, hquiet, hflag, hread, hclear⟩ := h
  rw [List.countP_cons] at hpending
  have hrest : ∀ w ∈ rest, ReadBefore s w := fun w hw => hread w (List.mem_cons_of_mem _ hw)
  rcases exec_cases hexec with ⟨rfl, hdma, hnew, hpermitted⟩ |
    ⟨packet, r, memInfo, rfl, hsubmit, rfl, rfl⟩ | ⟨header, memInfo, rfl, rfl, rfl⟩ |
    ⟨request, d, rfl, rfl, rfl⟩
  · refine ⟨?_, hquiet, hflag, fun w hw => ?_, hclear⟩
    · rw [hpending, List.countP_append, hnew, hdma]
      simp
    · rcases List.mem_append.mp hw with hw | hw
      · cases w with
        | dmaPermitted packet r =>
          -- the flag was down, so no recovery is on its way
          obtain ⟨rfl, hdown⟩ := hpermitted packet r hw
          refine ⟨le_refl _, fun hstage => ?_⟩
          rw [hflag hstage] at hdown
          cases hdown
        | dmaRequest | dma | inferenceRequest | notPending | permitted => trivial
      · exact hrest w hw
  · have hread' := hread _ List.mem_cons_self
    have hbusy : s.stage.drained = false := by
      refine Bool.eq_false_iff.mpr fun hdrained => ?_
      have hstage : s.stage ≠ .idle := fun hidle => by
        rw [hidle] at hdrained
        cases hdrained
      rw [hok hdrained (hread'.2 hstage)] at hsubmit
      cases hsubmit
    refine ⟨?_, fun hdrained => ?_, hflag, fun w hw => ?_, hclear⟩
    · simp [hpending, Work.isDma, List.countP_cons]
    · rw [hbusy] at hdrained
      cases hdrained
    · rcases List.mem_cons.mp hw with rfl | hw
      · trivial
      · exact hrest w hw
  · refine ⟨?_, fun hdrained => ?_, hflag, hrest, hclear⟩
    · simp [hpending, Work.isDma]
    · simp [hquiet hdrained]
  · refine ⟨?_, hquiet, hflag, hrest, hclear.exec (.addScheduler e.env request d) trivial⟩
    simpa [Work.isDma] using hpending

/-- One step of the recovery thread. -/
theorem Inv.advance {timedOut : Bool} (h : Inv s work)
    (hok : ∀ completed, s.stage = .recovered completed → s.scheduler.noneRunning = true)
    (hadvance : advance s timedOut = some s') : Inv s' work := by
  obtain ⟨hpending, hquiet, hflag, hread, hclear⟩ := h
  have hkept : ∀ {t : State p n}, t.recoveries = s.recoveries → s.stage ≠ .idle →
      ∀ w ∈ work, ReadBefore t w := fun {t} hrecoveries hstage w hw => by
    have hw := hread w hw
    cases w with
    | dmaPermitted packet r =>
      exact ⟨hrecoveries ▸ hw.1, fun _ => hrecoveries ▸ hw.2 hstage⟩
    | dmaRequest | dma | inferenceRequest | notPending | permitted => trivial
  rw [RecoveryService.advance] at hadvance
  split at hadvance
  · cases hadvance
    refine ⟨hpending, nofun, fun _ => rfl, fun w hw => ?_, hclear⟩
    have hw := hread w hw
    cases w with
    | dmaPermitted packet r => exact ⟨Nat.le_succ_of_le hw.1, fun _ => Nat.lt_succ_of_le hw.1⟩
    | dmaRequest | dma | inferenceRequest | notPending | permitted => trivial
  · next hstage =>
    have hne : s.stage ≠ .idle := by rw [hstage]; exact nofun
    split_ifs at hadvance with hzero
    · cases hadvance
      exact ⟨hpending, fun _ => hzero, fun _ => hflag hne, hkept rfl hne, hclear⟩
    · cases hadvance
      exact ⟨hpending, nofun, fun _ => hflag hne, hkept rfl hne, hclear⟩
  · next completed hstage =>
    have hne : s.stage ≠ .idle := by rw [hstage]; exact nofun
    cases hadvance
    rw [hstage] at hquiet
    exact ⟨hpending, hquiet, fun _ => hflag hne, hkept rfl hne, hclear⟩
  · next completed hstage =>
    have hne : s.stage ≠ .idle := by rw [hstage]; exact nofun
    cases hadvance
    rw [hstage] at hquiet
    exact ⟨hpending, hquiet, fun _ => hflag hne, hkept rfl hne, hclear.clear (hok _ hstage)⟩
  · next completed hstage =>
    have hne : s.stage ≠ .idle := by rw [hstage]; exact nofun
    cases hadvance
    exact ⟨hpending, nofun, fun hidle => absurd rfl hidle, hkept rfl hne, hclear⟩

theorem Inv.arrive {a : Arrival n} (h : Inv s work) (hok : Settled s a)
    (harrive : arrive s a = some (s', new)) : Inv s' (new ++ work) := by
  cases a with
  | dmaRequest packet =>
    cases harrive
    exact ⟨h.pending, h.quiet, h.flag, List.forall_mem_cons.mpr ⟨trivial, h.read⟩, h.clear⟩
  | inferenceRequest pid request d =>
    cases harrive
    exact ⟨h.pending, h.quiet, h.flag, List.forall_mem_cons.mpr ⟨trivial, h.read⟩, h.clear⟩
  | call op =>
    have hcall : s' = { s with scheduler := s.scheduler.exec op } ∧ new = [] := by
      cases op with
      | addScheduler => cases harrive
      | finishJobs | stopTaskInference | stopAllInferenceForProcess | clearRunningRequests =>
        cases harrive
        exact ⟨rfl, rfl⟩
    obtain ⟨rfl, rfl⟩ := hcall
    exact ⟨h.pending, h.quiet, h.flag, h.read, h.clear.exec op hok⟩
  | recovery timedOut =>
    obtain ⟨t, hadvance, heq⟩ := Option.map_eq_some_iff.mp harrive
    cases heq
    exact h.advance hok hadvance

/-! ### Every run -/

/-- The two steps that the conditions exclude for the sake of the recovery are the ones that go wrong:
    a transfer submitted after the report, and a clear while a request is RUNNING. -/
theorem not_recovers_submit {before after : List (Work n)} {packet : DmaPacket} {r : ℕ}
    (hbad : ¬ Timely s (.dmaPermitted packet r) e)
    (hexec : exec s (.dmaPermitted packet r) e = some (s', new)) :
    ¬ Recovers ⟨s', before ++ new ++ after⟩ := by
  intro h
  simp only [Timely, Classical.not_imp] at hbad
  obtain ⟨hdrained, -, hsubmit⟩ := hbad
  obtain ⟨memInfo, hsubmit⟩ := Option.ne_none_iff_exists'.mp hsubmit
  simp only [exec, hsubmit, Option.some.injEq, Prod.mk.injEq] at hexec
  obtain ⟨rfl, rfl⟩ := hexec
  exact absurd (h.quiet hdrained).1 (Nat.succ_ne_zero _)

theorem not_recovers_clear {timedOut : Bool} (hbad : ¬ Settled s (.recovery timedOut))
    (harrive : arrive s (.recovery timedOut) = some (s', new)) :
    ¬ Recovers ⟨s', new ++ work⟩ := by
  intro h
  simp only [Settled, not_forall] at hbad
  obtain ⟨completed, hstage, hrunning⟩ := hbad
  simp only [arrive, advance, hstage, Option.map_some, Option.some.injEq, Prod.mk.injEq] at harrive
  obtain ⟨rfl, rfl⟩ := harrive
  exact not_completable_clear (Bool.eq_false_iff.mpr hrunning) _ h.completable

/-- In every run in which no handler from before a recovery submits a transfer between the report of
    `WaitForDMACompletion` and the clearing of the flag, nothing is RUNNING when `ClearAllLoad` is
    called, and no response is to a submission from before it: no transfer is outstanding between the
    report and the clearing, and every request can be completed. A transfer submitted in between, or a
    clear while a request is RUNNING, breaks this at once. -/
theorem recovery_recovers {c : Workers.Config (State p n) (Work n)}
    (hrun : Relation.ReflTransGen (Workers.Step system Timely Settled) (init p n) c) :
    Recovers c ∧
    (∀ before packet r after e s' new, c.work = before ++ .dmaPermitted packet r :: after →
      ¬ Timely c.shared (.dmaPermitted packet r) e →
      system.exec c.shared (.dmaPermitted packet r) e = some (s', new) →
        ¬ Recovers ⟨s', before ++ new ++ after⟩) ∧
    ∀ timedOut s' new, ¬ Settled c.shared (.recovery timedOut) →
      system.arrive c.shared (.recovery timedOut) = some (s', new) →
        ¬ Recovers ⟨s', new ++ c.work⟩ := by
  have hinv : Inv c.shared c.work :=
    Workers.invariant (fun _ _ _ hperm h => h.perm hperm)
      (fun _ _ _ _ _ _ h hok hexec => h.exec hok hexec)
      (fun _ _ _ _ _ h hok harrive => h.arrive hok harrive) hrun (inv_init p n)
  exact ⟨hinv.recovers, fun _ _ _ _ _ _ _ _ hbad hexec => not_recovers_submit hbad hexec,
    fun _ _ _ hbad harrive => not_recovers_clear hbad harrive⟩

/-- A block of process 7; tasks are valid and devices take every request. -/
def serving : Circumstances :=
  ⟨HandleTable.trackSharedMemoryHandle .empty 0 7 ⟨1, 4096, 65536, 0, 8192, 5⟩, [0], true, false,
    accepting⟩

/-- A recovery that waits for a transfer and turns another one away; the request is answered in
    time. -/
theorem recovery_recovers_drained : ∃ c : Workers.Config (State .fifo 1) (Work 1),
    Workers.play system Timely Settled (init .fifo 1)
      [.arrive (.dmaRequest DmaService.oneWrite), .work 0 serving, .work 0 serving,
        .arrive (.inferenceRequest 7 ⟨7, 1, 0⟩ 0), .work 0 serving, .work 0 serving,
        .work 0 serving, .arrive (.recovery false),
        .arrive (.dmaRequest DmaService.oneWrite), .work 0 serving, .work 0 serving,
        .arrive (.call (.finishJobs accepting 0 ⟨7, 1, 5, 0⟩)),
        .arrive (.recovery false), .arrive (.recovery false), .arrive (.recovery false)] = some c ∧
    c.shared.stage = .cleared true ∧ Recovers c := by
  have hplay : ∃ c : Workers.Config (State .fifo 1) (Work 1),
      Workers.play system Timely Settled (init .fifo 1)
        [.arrive (.dmaRequest DmaService.oneWrite), .work 0 serving, .work 0 serving,
          .arrive (.inferenceRequest 7 ⟨7, 1, 0⟩ 0), .work 0 serving, .work 0 serving,
          .work 0 serving, .arrive (.recovery false),
          .arrive (.dmaRequest DmaService.oneWrite), .work 0 serving, .work 0 serving,
          .arrive (.call (.finishJobs accepting 0 ⟨7, 1, 5, 0⟩)),
          .arrive (.recovery false), .arrive (.recovery false), .arrive (.recovery false)] =
        some c ∧ c.shared.stage = .cleared true :=
    ⟨_, rfl, by decide +kernel⟩
  obtain ⟨c, hc, hstage⟩ := hplay
  exact ⟨c, hc, hstage, (recovery_recovers (Workers.play_run hc)).1⟩

/-- A handler that read the flag before the recovery submits its transfer after the wait. And a
    request that a device works on when it is recovered stays RUNNING, with no counter that counts
    it. -/
theorem recovery_strands :
    (∃ c : Workers.Config (State .fifo 1) (Work 1),
      Workers.play system (fun _ _ _ => True) (fun _ _ => True) (init .fifo 1)
        [.arrive (.dmaRequest DmaService.oneWrite), .work 0 serving, .arrive (.recovery false),
          .arrive (.recovery false), .work 0 serving] = some c ∧
      c.shared.stage = .paused true ∧ ¬ NoDma c) ∧
    ∃ c : Workers.Config (State .fifo 1) (Work 1),
      Workers.play system (fun _ _ _ => True) (fun _ _ => True) (init .fifo 1)
        ([.arrive (.inferenceRequest 7 ⟨7, 1, 0⟩ 0), .work 0 serving, .work 0 serving,
          .work 0 serving] ++ List.replicate 5 (.arrive (.recovery false))) = some c ∧
      c.shared.stage = .idle ∧ c.work = [] ∧
      c.shared.scheduler.entry (7, 1) = some ⟨⟨7, 1, 0⟩, .running, some 0⟩ ∧
      ¬ Completable c.shared.cleared c.shared.scheduler := by
  constructor
  · refine ⟨_, rfl, by decide +kernel, fun h => absurd h.1 ?_⟩
    decide +kernel
  · refine ⟨_, rfl, by decide +kernel, by decide +kernel, by decide +kernel, fun h => ?_⟩
    have hle := h.counted 0 {(7, 1)} fun k hk => by
      rw [Finset.mem_singleton.mp hk]
      exact ⟨⟨⟨7, 1, 0⟩, .running, some 0⟩, by decide +kernel⟩
    revert hle
    decide +kernel

end RecoveryService
end DxRt
