import DxRt.Lib.Run
import DxRt.Lib.Trace

/-! lib/inference_engine.cpp, lib/inference_job.cpp, circular_data_pool.h: the slots of the job pool.

    `RunAsync` picks a slot of the pool by its use flag, prepares and starts the job and then sets
    the occupied flag; the completion of the job stores the outputs, clears the use flag, sets the
    status and clears the occupied flag; `Wait` blocks on the status and takes the outputs. These
    are separate steps of different threads, and the use flag goes first: a slot can be picked
    before its last completion has set the status, and the starter's occupied flag may come after
    the completion cleared it. Both are excluded by the occupied flag itself, if a slot is picked
    only without it and released only with it.

    A run is one use of a slot; the outputs of a run are its number. The requests of a run are one
    step, at any time after they were sent. -/

namespace DxRt.Inference

/-- `Request::Status` as a job uses it. -/
inductive ReqStatus
  | idle
  | busy
  | done
  deriving DecidableEq

/-- An `InferenceJob` of the pool. `tensors` and `returnOutputs` are given by the run that produced
    them; `run` is the run that picked the slot last. -/
structure Slot where
  useFlag : Bool
  occupiedJob : Bool
  status : ReqStatus
  storeResult : Bool
  hasOutputPtr : Bool
  tensors : Option ℕ
  returnOutputs : Option ℕ
  run : Option ℕ
  deriving DecidableEq

/-- The next step of the thread in `RunAsync`, after `pick`; `Clear` takes three. -/
inductive Starter
  | clearTensors
  | clearStatus
  | clearFlags
  | setStoreResult
  | setBusy
  | inferenceRequest
  | setOccupiedJob
  | over
  deriving DecidableEq

/-- The next step on the completion side, in `onAllRequestComplete` once the requests are done. -/
inductive Handler
  | none
  | requests
  | setReturnOutputs
  | releaseAllOutputBuffer
  | setDone
  | clearOccupiedJob
  | over
  deriving DecidableEq

/-- The next step of the `Wait` for a run. -/
inductive Waiter
  | none
  | wait
  | getOutput
  | over
  deriving DecidableEq

/-- A run with its arguments: whether its results are to be stored (`Run`, or no user callback) and
    whether an output buffer was given. -/
structure RunState where
  slot : ℕ
  storeResult : Bool
  hasOutputPtr : Bool
  starter : Starter
  handler : Handler
  waiter : Waiter
  deriving DecidableEq

/-- What happens to the slots: a pick, a step of the completion of a run with the run the slot
    belongs to, the last such step, and what a `Wait` returns. -/
inductive SlotEvent
  | picked (j r : ℕ)
  | completes (j r : ℕ) (owner : Option ℕ)
  | finished (j r : ℕ)
  | returned (j r : ℕ) (outputs : Option ℕ)
  deriving DecidableEq

/-- `CircularDataPool<InferenceJob>` with the runs; `scan` is the `pick` in progress, with the
    number of slots it has still to try. -/
structure JobPool where
  size : ℕ
  headIndex : ℕ
  scan : Option (ℕ × Bool × Bool)
  slots : ℕ → Slot
  runs : ℕ → Option RunState
  nextRun : ℕ
  log : List SlotEvent

/-- Who takes a step. -/
inductive Actor
  | pick (storeResult hasOutputPtr : Bool)
  | scan
  | starter (r : ℕ)
  | handler (r : ℕ)
  | callWait (r : ℕ)
  | waiter (r : ℕ)
  deriving DecidableEq

/-- A step of the starter on its slot. -/
def RunState.start (ρ : RunState) (σ : Slot) : Option (RunState × Slot) :=
  match ρ.starter with
  | .clearTensors => some ({ ρ with starter := .clearStatus }, { σ with tensors := none })
  | .clearStatus => some ({ ρ with starter := .clearFlags }, { σ with status := .idle })
  | .clearFlags => some ({ ρ with starter := .setStoreResult },
      { σ with hasOutputPtr := false, storeResult := false, occupiedJob := false })
  | .setStoreResult => some ({ ρ with starter := .setBusy },
      { σ with storeResult := if ρ.storeResult then true else σ.storeResult })
  | .setBusy => some ({ ρ with starter := .inferenceRequest },
      { σ with status := .busy, hasOutputPtr := ρ.hasOutputPtr })
  | .inferenceRequest => some ({ ρ with starter := .setOccupiedJob, handler := .requests }, σ)
  | .setOccupiedJob => some ({ ρ with starter := .over }, { σ with occupiedJob := true })
  | .over => none

/-- A step of the completion of run `r` on its slot. -/
def RunState.complete (ρ : RunState) (r : ℕ) (σ : Slot) : Option (RunState × Slot) :=
  match ρ.handler with
  | .none => none
  | .requests => some ({ ρ with handler := .setReturnOutputs }, { σ with tensors := some r })
  | .setReturnOutputs => some ({ ρ with handler := .releaseAllOutputBuffer },
      { σ with
        returnOutputs := if σ.storeResult || σ.hasOutputPtr then σ.tensors else σ.returnOutputs })
  | .releaseAllOutputBuffer => some ({ ρ with handler := .setDone }, { σ with useFlag := false })
  | .setDone => some ({ ρ with handler := .clearOccupiedJob }, { σ with status := .done })
  | .clearOccupiedJob => some ({ ρ with handler := .over }, { σ with occupiedJob := false })
  | .over => none

namespace JobPool
variable {s t : JobPool} {r j : ℕ} {ρ ρ' : RunState} {σ : Slot}

def initSlot : Slot where
  useFlag := false
  occupiedJob := false
  status := .idle
  storeResult := false
  hasOutputPtr := false
  tensors := none
  returnOutputs := none
  run := none

def init (size : ℕ) : JobPool where
  size := size
  headIndex := 0
  scan := none
  slots _ := initSlot
  runs _ := none
  nextRun := 0
  log := []

/-- Run `r` and its slot after a step. -/
def update (s : JobPool) (r : ℕ) (ρ : RunState) (σ : Slot) (events : List SlotEvent) : JobPool :=
  { s with
    runs := Function.update s.runs r (some ρ)
    slots := Function.update s.slots ρ.slot σ
    log := events ++ s.log }

/-- `pick` takes slot `j`: the compare-and-exchange of the use flag succeeded. -/
def take (s : JobPool) (j headIndex : ℕ) (storeResult hasOutputPtr : Bool) : JobPool :=
  { s with
    headIndex := headIndex
    scan := none
    slots := Function.update s.slots j { s.slots j with useFlag := true, run := some s.nextRun }
    runs := Function.update s.runs s.nextRun
      (some ⟨j, storeResult, hasOutputPtr, .clearTensors, .none, .none⟩)
    nextRun := s.nextRun + 1
    log := .picked j s.nextRun :: s.log }

/-- One step, if it is enabled. -/
def exec (s : JobPool) : Actor → Option JobPool
  | .pick storeResult hasOutputPtr =>
    if s.scan.isNone then some { s with scan := some (s.size, storeResult, hasOutputPtr) } else none
  | .scan => match s.scan with
    | none => none
    | some (0, _, _) => some { s with scan := none }
    | some (k + 1, storeResult, hasOutputPtr) =>
      let j := s.headIndex
      let headIndex := if j + 1 = s.size then 0 else j + 1
      if (s.slots j).useFlag then
        some { s with headIndex := headIndex, scan := some (k, storeResult, hasOutputPtr) }
      else some (s.take j headIndex storeResult hasOutputPtr)
  | .starter r => match s.runs r with
    | none => none
    | some ρ => match ρ.start (s.slots ρ.slot) with
      | none => none
      | some (ρ', σ) => some (s.update r ρ' σ [])
  | .handler r => match s.runs r with
    | none => none
    | some ρ => match ρ.complete r (s.slots ρ.slot) with
      | none => none
      | some (ρ', σ) =>
        let event := SlotEvent.completes ρ.slot r (s.slots ρ.slot).run
        some (s.update r ρ' σ (if ρ'.handler = .over then [.finished ρ.slot r, event] else [event]))
  | .callWait r => match s.runs r with
    | none => none
    | some ρ =>
      -- the id of the job is known when `RunAsync` has returned
      if ρ.starter = .over ∧ ρ.waiter = .none then
        some (s.update r { ρ with waiter := .wait } (s.slots ρ.slot) [])
      else none
  | .waiter r => match s.runs r with
    | none => none
    | some ρ =>
      let σ := s.slots ρ.slot
      match ρ.waiter with
      | .wait =>
        if σ.status = .busy then none else some (s.update r { ρ with waiter := .getOutput } σ [])
      | .getOutput => some (s.update r { ρ with waiter := .over } { σ with returnOutputs := none }
          [.returned ρ.slot r σ.returnOutputs])
      | _ => none

def Step (s t : JobPool) : Prop := ∃ a, s.exec a = some t

/-- The condition on a step: a slot is picked without the occupied flag and released with it; a
    `Wait` finds its run in the slot, with the results to be stored. -/
def orderly (s : JobPool) : Actor → Bool
  | .scan => match s.scan with
    | some (_ + 1, _) => (s.slots s.headIndex).useFlag || !(s.slots s.headIndex).occupiedJob
    | _ => true
  | .handler r => match s.runs r with
    | some ρ => ρ.handler ≠ .releaseAllOutputBuffer || (s.slots ρ.slot).occupiedJob
    | none => true
  | .waiter r => match s.runs r with
    | some ρ => ρ.waiter ≠ .getOutput || ((s.slots ρ.slot).run = some r &&
        ((s.slots ρ.slot).storeResult || (s.slots ρ.slot).hasOutputPtr))
    | none => true
  | _ => true

def OrderlyStep (s t : JobPool) : Prop := ∃ a, s.exec a = some t ∧ s.orderly a = true

/-- The steps of the given actors in turn; a step that is not enabled is left out. -/
def play (s : JobPool) (actors : List Actor) : JobPool :=
  actors.foldl (fun s a => (s.exec a).getD s) s

/-- All these steps are orderly. -/
def allOrderly (s : JobPool) : List Actor → Bool
  | [] => true
  | a :: actors => s.orderly a && allOrderly ((s.exec a).getD s) actors

theorem play_run (s : JobPool) (actors : List Actor) :
    Relation.ReflTransGen Step s (s.play actors) := by
  induction actors generalizing s with
  | nil => exact .refl
  | cons a actors ih =>
    refine Relation.ReflTransGen.trans ?_ (ih ((s.exec a).getD s))
    cases hexec : s.exec a with
    | none => exact .refl
    | some t => exact .single ⟨a, hexec⟩

theorem play_orderly (s : JobPool) (actors : List Actor) (h : s.allOrderly actors = true) :
    Relation.ReflTransGen OrderlyStep s (s.play actors) := by
  induction actors generalizing s with
  | nil => exact .refl
  | cons a actors ih =>
    obtain ⟨ha, hactors⟩ := (Bool.and_eq_true _ _).mp h
    refine Relation.ReflTransGen.trans ?_ (ih ((s.exec a).getD s) hactors)
    cases hexec : s.exec a with
    | none => exact .refl
    | some t => exact .single ⟨a, hexec, ha⟩

/-! ### The run that owns a slot -/

/-- Run `r` owns its slot, and the fields of the slot are as its steps have left them. -/
structure Owns (r : ℕ) (ρ : RunState) (σ : Slot) : Prop where
  run : σ.run = some r
  sent : ρ.handler = .none ↔ ρ.starter ≠ .setOccupiedJob ∧ ρ.starter ≠ .over
  useFlag : σ.useFlag = false ↔
    ρ.handler = .setDone ∨ ρ.handler = .clearOccupiedJob ∨ ρ.handler = .over
  released : σ.useFlag = false → ρ.starter = .over
  occupied : σ.occupiedJob = true ↔ ρ.starter = .over ∧ ρ.handler ≠ .over
  busy : ρ.starter = .inferenceRequest ∨ ρ.starter = .setOccupiedJob ∨ ρ.starter = .over →
    ρ.handler ≠ .clearOccupiedJob → ρ.handler ≠ .over → σ.status = .busy
  tensors : ρ.handler = .setReturnOutputs → σ.tensors = some r
  outputs : ρ.handler ≠ .none → ρ.handler ≠ .requests → ρ.handler ≠ .setReturnOutputs →
    ρ.waiter ≠ .over → (σ.storeResult || σ.hasOutputPtr) = true → σ.returnOutputs = some r
  waiter : ρ.waiter ≠ .none → ρ.starter = .over
  waited : ρ.waiter = .getOutput ∨ ρ.waiter = .over →
    ρ.handler = .clearOccupiedJob ∨ ρ.handler = .over

/-- All steps of the run are over, those of the starter too. -/
def RunState.Over (ρ : RunState) : Prop := ρ.starter = .over ∧ ρ.handler = .over

/-- A pick finds every earlier run of the slot finished; a step of a completion finds the slot in
    its own run; a `Wait` returns the outputs of its run. -/
def Permits (log : List SlotEvent) : SlotEvent → Prop
  | .picked j _ => ∀ r, .picked j r ∈ log → .finished j r ∈ log
  | .completes _ r owner => owner = some r
  | .finished _ _ => True
  | .returned _ r outputs => outputs = some r

/-- The invariant of orderly runs. -/
structure SlotInv (s : JobPool) : Prop where
  fresh : ∀ r ρ, s.runs r = some ρ → r < s.nextRun
  owner : ∀ j r, (s.slots j).run = some r → ∃ ρ, s.runs r = some ρ ∧ ρ.slot = j
  phase : ∀ r ρ, s.runs r = some ρ → Owns r ρ (s.slots ρ.slot) ∨
    (s.slots ρ.slot).run ≠ some r ∧ RunState.Over ρ
  picked : ∀ j r, .picked j r ∈ s.log → ∃ ρ, s.runs r = some ρ ∧ ρ.slot = j
  finished : ∀ r ρ, s.runs r = some ρ → ρ.handler = .over → .finished ρ.slot r ∈ s.log
  permitted : Trace.Permitted Permits s.log

/-! ### Steps of a run -/

theorem Owns.start (h : Owns r ρ σ) {σ' : Slot} (hstep : ρ.start σ = some (ρ', σ')) :
    Owns r ρ' σ' := by
  obtain ⟨slot, store, out, starter, handler, waiter⟩ := ρ
  obtain ⟨run, sent, use, released, occupied, busy, tensors, outputs, hwaiter, waited⟩ := h
  cases starter <;> simp only [RunState.start, Option.some.injEq, Prod.mk.injEq, reduceCtorEq] at hstep
  all_goals
    obtain ⟨rfl, rfl⟩ := hstep
    constructor <;> simp_all

theorem Owns.complete (h : Owns r ρ σ) {σ' : Slot} (hstep : ρ.complete r σ = some (ρ', σ'))
    (hrelease : ρ.handler = .releaseAllOutputBuffer → σ.occupiedJob = true) : Owns r ρ' σ' := by
  obtain ⟨slot, store, out, starter, handler, waiter⟩ := ρ
  obtain ⟨run, sent, use, released, occupied, busy, tensors, outputs, hwaiter, waited⟩ := h
  cases handler <;>
    simp only [RunState.complete, Option.some.injEq, Prod.mk.injEq, reduceCtorEq] at hstep
  all_goals
    obtain ⟨rfl, rfl⟩ := hstep
    constructor <;> simp_all

/-- A run steps on its slot; the other runs of the slot are over. -/
theorem SlotInv.update (h : SlotInv s) (hρ : s.runs r = some ρ) (hslot : ρ'.slot = ρ.slot)
    (hphase : Owns r ρ' σ ∨ σ.run ≠ some r ∧ RunState.Over ρ')
    (hsame : σ = s.slots ρ.slot ∨ (s.slots ρ.slot).run = some r)
    (hrun : σ.run = (s.slots ρ.slot).run) (events : List SlotEvent)
    (hpicked : ∀ j r, .picked j r ∉ events)
    (hfinished : ρ'.handler = .over → .finished ρ.slot r ∈ events ++ s.log)
    (hpermitted : Trace.Permitted Permits (events ++ s.log)) :
    SlotInv (s.update r ρ' σ events) where
  fresh r' ρ'' hρ'' := by
    by_cases hr : r' = r
    · exact hr ▸ h.fresh r ρ hρ
    · exact h.fresh r' ρ'' (by simpa [JobPool.update, hr] using hρ'')
  owner j r' hj := by
    have hold : (s.slots j).run = some r' := by
      by_cases hjs : j = ρ.slot
      · subst hjs
        simpa [JobPool.update, hslot, hrun] using hj
      · simpa [JobPool.update, hslot, hjs] using hj
    obtain ⟨ρ'', hρ'', hj'⟩ := h.owner j r' hold
    by_cases hr : r' = r
    · subst hr
      obtain rfl : ρ'' = ρ := Option.some.inj (hρ''.symm.trans hρ)
      exact ⟨ρ', by simp [JobPool.update], hslot.trans hj'⟩
    · exact ⟨ρ'', by simpa [JobPool.update, hr] using hρ'', hj'⟩
  phase r' ρ'' hρ'' := by
    by_cases hr : r' = r
    · subst hr
      obtain rfl : ρ' = ρ'' := by simpa [JobPool.update] using hρ''
      simpa [JobPool.update] using hphase
    · have hρ'' : s.runs r' = some ρ'' := by simpa [JobPool.update, hr] using hρ''
      have hold := h.phase r' ρ'' hρ''
      by_cases hj : ρ''.slot = ρ.slot
      · have hslots : (s.update r ρ' σ events).slots ρ''.slot = σ := by
          simp [JobPool.update, hj, hslot]
        rw [hslots]
        rcases hsame with rfl | howner
        · exact hj ▸ hold
        · refine .inr ?_
          rw [hj] at hold
          rcases hold with howns | ⟨hne, hover⟩
          · exact absurd (Option.some.inj (howns.run.symm.trans howner)) hr
          · exact ⟨hrun ▸ hne, hover⟩
      · have hslots : (s.update r ρ' σ events).slots ρ''.slot = s.slots ρ''.slot := by
          simp [JobPool.update, hslot, hj]
        rw [hslots]
        exact hold
  picked j r' hmem := by
    have hold : .picked j r' ∈ s.log :=
      (List.mem_append.mp hmem).resolve_left (hpicked j r')
    obtain ⟨ρ'', hρ'', hj⟩ := h.picked j r' hold
    by_cases hr : r' = r
    · subst hr
      obtain rfl : ρ'' = ρ := Option.some.inj (hρ''.symm.trans hρ)
      exact ⟨ρ', by simp [JobPool.update], hslot.trans hj⟩
    · exact ⟨ρ'', by simpa [JobPool.update, hr] using hρ'', hj⟩
  finished r' ρ'' hρ'' hover := by
    by_cases hr : r' = r
    · subst hr
      obtain rfl : ρ' = ρ'' := by simpa [JobPool.update] using hρ''
      exact hslot ▸ hfinished hover
    · have hρ'' : s.runs r' = some ρ'' := by simpa [JobPool.update, hr] using hρ''
      exact List.mem_append_right _ (h.finished r' ρ'' hρ'' hover)
  permitted := hpermitted

theorem start_slot {σ' : Slot} (hstep : ρ.start σ = some (ρ', σ')) :
    ρ'.slot = ρ.slot ∧ ρ.starter ≠ .over ∧ (ρ'.handler = .over → ρ.handler = .over) := by
  obtain ⟨slot, store, out, starter, handler, waiter⟩ := ρ
  cases starter <;>
    simp only [RunState.start, Option.some.injEq, Prod.mk.injEq, reduceCtorEq] at hstep <;>
    obtain ⟨rfl, rfl⟩ := hstep <;> simp

theorem complete_slot {σ' : Slot} (hstep : ρ.complete r σ = some (ρ', σ')) :
    ρ'.slot = ρ.slot ∧ ρ.handler ≠ .over := by
  obtain ⟨slot, store, out, starter, handler, waiter⟩ := ρ
  cases handler <;>
    simp only [RunState.complete, Option.some.injEq, Prod.mk.injEq, reduceCtorEq] at hstep <;>
    obtain ⟨rfl, rfl⟩ := hstep <;> simp

/-- The runs of a slot without use flag and occupied flag are over. -/
theorem SlotInv.over_of_free (h : SlotInv s) (hρ : s.runs r = some ρ)
    (huse : (s.slots ρ.slot).useFlag = false) (hoccupied : (s.slots ρ.slot).occupiedJob = false) :
    RunState.Over ρ := by
  rcases h.phase r ρ hρ with howns | ⟨-, hover⟩
  · have hstarter := howns.released huse
    refine ⟨hstarter, ?_⟩
    by_contra hhandler
    have htrue := howns.occupied.mpr ⟨hstarter, hhandler⟩
    simp [hoccupied] at htrue
  · exact hover

theorem SlotInv.take (h : SlotInv s) (huse : (s.slots j).useFlag = false)
    (hoccupied : (s.slots j).occupiedJob = false) (headIndex : ℕ) (storeResult hasOutputPtr : Bool) :
    SlotInv (s.take j headIndex storeResult hasOutputPtr) := by
  have hne : ∀ r ρ, s.runs r = some ρ → r ≠ s.nextRun := fun r ρ hρ => (h.fresh r ρ hρ).ne
  have hover : ∀ r ρ, s.runs r = some ρ → ρ.slot = j → RunState.Over ρ := by
    rintro r ρ hρ rfl
    exact h.over_of_free hρ huse hoccupied
  have hkeep : ∀ r ρ, s.runs r = some ρ →
      (s.take j headIndex storeResult hasOutputPtr).runs r = some ρ := by
    intro r ρ hρ
    simp [JobPool.take, hne r ρ hρ, hρ]
  constructor
  · intro r ρ hρ
    by_cases hr : r = s.nextRun
    · simp [JobPool.take, hr]
    · have hρ : s.runs r = some ρ := by simpa [JobPool.take, hr] using hρ
      exact Nat.lt_succ_of_lt (h.fresh r ρ hρ)
  · intro j' r hrun
    by_cases hj : j' = j
    · subst hj
      obtain rfl : s.nextRun = r := by simpa [JobPool.take] using hrun
      exact ⟨_, Function.update_self .., rfl⟩
    · obtain ⟨ρ, hρ, hslot⟩ := h.owner j' r (by simpa [JobPool.take, hj] using hrun)
      exact ⟨ρ, hkeep r ρ hρ, hslot⟩
  · intro r ρ hρ
    by_cases hr : r = s.nextRun
    · subst hr
      obtain rfl : _ = ρ := by simpa [JobPool.take] using hρ
      refine .inl ?_
      constructor <;> simp [JobPool.take, hoccupied]
    · have hρ : s.runs r = some ρ := by simpa [JobPool.take, hr] using hρ
      by_cases hj : ρ.slot = j
      · exact .inr ⟨by simp [JobPool.take, hj, Ne.symm hr], hover r ρ hρ hj⟩
      · have hslots : (s.take j headIndex storeResult hasOutputPtr).slots ρ.slot =
            s.slots ρ.slot := by simp [JobPool.take, hj]
        rw [hslots]
        exact h.phase r ρ hρ
  · intro j' r hmem
    rcases List.mem_cons.mp hmem with heq | hmem
    · obtain ⟨rfl, rfl⟩ : j' = j ∧ r = s.nextRun := by simpa using heq
      exact ⟨_, Function.update_self .., rfl⟩
    · obtain ⟨ρ, hρ, hslot⟩ := h.picked j' r hmem
      exact ⟨ρ, hkeep r ρ hρ, hslot⟩
  · intro r ρ hρ hhandler
    by_cases hr : r = s.nextRun
    · subst hr
      obtain rfl : _ = ρ := by simpa [JobPool.take] using hρ
      simp at hhandler
    · have hρ : s.runs r = some ρ := by simpa [JobPool.take, hr] using hρ
      exact List.mem_cons_of_mem _ (h.finished r ρ hρ hhandler)
  · refine ⟨fun r hmem => ?_, h.permitted⟩
    obtain ⟨ρ, hρ, rfl⟩ := h.picked j r hmem
    exact h.finished r ρ hρ (hover r ρ hρ rfl).2

/-! ### Every step and every run -/

theorem SlotInv.exec_starter (h : SlotInv s) (hexec : s.exec (.starter r) = some t) : SlotInv t := by
  simp only [exec] at hexec
  split at hexec
  · simp at hexec
  · rename_i ρ hρ
    split at hexec
    · simp at hexec
    · rename_i ρ' σ hstep
      obtain rfl := Option.some.inj hexec
      obtain ⟨hslot, hstarter, hhandler⟩ := start_slot hstep
      have howns : Owns r ρ (s.slots ρ.slot) :=
        (h.phase r ρ hρ).resolve_right fun hover => hstarter hover.2.1
      have howns' := howns.start hstep
      exact h.update hρ hslot (.inl howns') (.inr howns.run) (howns'.run.trans howns.run.symm)
        [] (by simp) (fun hover => h.finished r ρ hρ (hhandler hover)) h.permitted

theorem SlotInv.exec_handler (h : SlotInv s) (hexec : s.exec (.handler r) = some t)
    (horderly : s.orderly (.handler r) = true) : SlotInv t := by
  simp only [exec] at hexec
  split at hexec
  · simp at hexec
  · rename_i ρ hρ
    split at hexec
    · simp at hexec
    · rename_i ρ' σ hstep
      obtain rfl := Option.some.inj hexec
      obtain ⟨hslot, hhandler⟩ := complete_slot hstep
      have howns : Owns r ρ (s.slots ρ.slot) :=
        (h.phase r ρ hρ).resolve_right fun hover => hhandler hover.2.2
      have hrelease : ρ.handler = .releaseAllOutputBuffer → (s.slots ρ.slot).occupiedJob = true := by
        intro heq
        simpa [orderly, hρ, heq] using horderly
      have howns' := howns.complete hstep hrelease
      refine h.update hρ hslot (.inl howns') (.inr howns.run) (howns'.run.trans howns.run.symm) _ ?_ ?_ ?_
      · intro j r'
        split_ifs <;> simp
      · intro hover
        simp [hover]
      · split_ifs
        · exact ⟨trivial, howns.run, h.permitted⟩
        · exact ⟨howns.run, h.permitted⟩

theorem SlotInv.exec_callWait (h : SlotInv s) (hexec : s.exec (.callWait r) = some t) :
    SlotInv t := by
  simp only [exec] at hexec
  split at hexec
  · simp at hexec
  · rename_i ρ hρ
    split_ifs at hexec with hcall
    obtain rfl := Option.some.inj hexec
    refine h.update hρ (by rfl) ?_ (.inl rfl) rfl [] (by simp) (h.finished r ρ hρ) h.permitted
    refine (h.phase r ρ hρ).imp (fun howns => ?_) fun hover => hover
    exact { howns with
      outputs := fun h₁ h₂ h₃ _ => howns.outputs h₁ h₂ h₃ (by simp [hcall.2])
      waiter := fun _ => hcall.1
      waited := by simp }

theorem SlotInv.exec_waiter (h : SlotInv s) (hexec : s.exec (.waiter r) = some t)
    (horderly : s.orderly (.waiter r) = true) : SlotInv t := by
  simp only [exec] at hexec
  split at hexec
  · simp at hexec
  · rename_i ρ hρ
    split at hexec
    · rename_i hwaiter
      split_ifs at hexec with hbusy
      obtain rfl := Option.some.inj hexec
      refine h.update hρ (by rfl) ?_ (.inl rfl) rfl [] (by simp) (h.finished r ρ hρ) h.permitted
      refine (h.phase r ρ hρ).imp (fun howns => ?_) fun hover => hover
      have hstarter := howns.waiter (by simp [hwaiter])
      exact { howns with
        outputs := fun h₁ h₂ h₃ _ => howns.outputs h₁ h₂ h₃ (by simp [hwaiter])
        waiter := fun _ => hstarter
        waited := fun _ => by
          by_contra hnot
          rw [not_or] at hnot
          exact hbusy (howns.busy (.inr (.inr hstarter)) hnot.1 hnot.2) }
    · rename_i hwaiter
      obtain rfl := Option.some.inj hexec
      obtain ⟨hrun, hstored⟩ : (s.slots ρ.slot).run = some r ∧
          ((s.slots ρ.slot).storeResult || (s.slots ρ.slot).hasOutputPtr) = true := by
        simpa [orderly, hρ, hwaiter] using horderly
      have howns : Owns r ρ (s.slots ρ.slot) :=
        (h.phase r ρ hρ).resolve_right fun hover => hover.1 hrun
      have hwaited := howns.waited (.inl hwaiter)
      have houtputs : (s.slots ρ.slot).returnOutputs = some r :=
        howns.outputs (by rintro heq; simp [heq] at hwaited) (by rintro heq; simp [heq] at hwaited)
          (by rintro heq; simp [heq] at hwaited) (by simp [hwaiter]) hstored
      refine h.update hρ (by rfl) (.inl ?_) (.inr hrun) (by rfl)
        [.returned ρ.slot r (s.slots ρ.slot).returnOutputs] (by simp)
        (fun hover => List.mem_append_right _ (h.finished r ρ hρ hover)) ⟨houtputs, h.permitted⟩
      exact { howns with
        outputs := by simp
        waiter := fun _ => howns.waiter (by simp [hwaiter])
        waited := fun _ => hwaited }
    · simp at hexec

theorem SlotInv.of_scan (h : SlotInv s) (scan : Option (ℕ × Bool × Bool)) (headIndex : ℕ) :
    SlotInv { s with scan := scan, headIndex := headIndex } :=
  ⟨h.fresh, h.owner, h.phase, h.picked, h.finished, h.permitted⟩

theorem SlotInv.exec_scan (h : SlotInv s) (hexec : s.exec .scan = some t)
    (horderly : s.orderly .scan = true) : SlotInv t := by
  simp only [exec] at hexec
  split at hexec
  · simp at hexec
  · obtain rfl := Option.some.inj hexec
    exact h.of_scan none s.headIndex
  · rename_i k storeResult hasOutputPtr hscan
    cases huse : (s.slots s.headIndex).useFlag with
    | true =>
      simp only [huse, if_true, Option.some.injEq] at hexec
      subst hexec
      exact h.of_scan _ _
    | false =>
      simp only [huse, Bool.false_eq_true, if_false, Option.some.injEq] at hexec
      subst hexec
      have hoccupied : (s.slots s.headIndex).occupiedJob = false := by
        simpa [orderly, hscan, huse] using horderly
      exact h.take huse hoccupied _ _ _

theorem SlotInv.step (hstep : OrderlyStep s t) (h : SlotInv s) : SlotInv t := by
  obtain ⟨a, hexec, horderly⟩ := hstep
  cases a with
  | pick storeResult hasOutputPtr =>
    simp only [exec] at hexec
    split_ifs at hexec
    obtain rfl := Option.some.inj hexec
    exact h.of_scan _ s.headIndex
  | scan => exact h.exec_scan hexec horderly
  | starter r => exact h.exec_starter hexec
  | handler r => exact h.exec_handler hexec horderly
  | callWait r => exact h.exec_callWait hexec
  | waiter r => exact h.exec_waiter hexec horderly

theorem SlotInv.init (size : ℕ) : SlotInv (init size) := by
  constructor <;> simp [JobPool.init, initSlot, Trace.Permitted]

theorem SlotInv.run {size : ℕ} (hrun : Relation.ReflTransGen OrderlyStep (JobPool.init size) s) :
    SlotInv s :=
  Run.invariant (fun _ _ hstep h => h.step hstep) hrun (SlotInv.init size)

/-- In every run whose steps are orderly: a slot is picked when its earlier runs are finished; the
    completion of a run finds the slot in that run; a run all of whose steps are over has left its
    slot free, unless it was picked again; a `Wait` returns the outputs of its run. -/
theorem slots_not_mixed_up {size : ℕ}
    (hrun : Relation.ReflTransGen OrderlyStep (JobPool.init size) s) :
    (∀ after before j r, s.log = after ++ .picked j r :: before →
      ∀ r', .picked j r' ∈ before → .finished j r' ∈ before) ∧
    (∀ j r owner, .completes j r owner ∈ s.log → owner = some r) ∧
    (∀ r ρ, s.runs r = some ρ → RunState.Over ρ → (s.slots ρ.slot).run = some r →
      (s.slots ρ.slot).useFlag = false ∧ (s.slots ρ.slot).occupiedJob = false) ∧
    (∀ j r outputs, .returned j r outputs ∈ s.log → outputs = some r) := by
  have h := SlotInv.run hrun
  refine ⟨fun after before j r hlog => ?_, fun j r owner hmem => ?_, fun r ρ hρ hover howner => ?_,
    fun j r outputs hmem => ?_⟩
  · have hpermitted := h.permitted
    rw [hlog] at hpermitted
    exact hpermitted.of_split
  · obtain ⟨_, -, hpermit⟩ := h.permitted.of_mem hmem
    exact hpermit
  · have howns := (h.phase r ρ hρ).resolve_right fun hne => hne.1 howner
    refine ⟨howns.useFlag.mpr (.inr (.inr hover.2)), ?_⟩
    rw [← Bool.not_eq_true, howns.occupied]
    exact fun hnot => hnot.2 hover.2
  · obtain ⟨_, -, hpermit⟩ := h.permitted.of_mem hmem
    exact hpermit

/-- Two runs with their `Wait`s, the second prepared while the first completes. -/
def orderlyActors : List Actor :=
  [(Actor.pick true false, 1), (.scan, 1), (.starter 0, 7), (.callWait 0, 1), (.handler 0, 3),
    (.pick true true, 1), (.scan, 1), (.starter 1, 1), (.handler 0, 3), (.waiter 0, 2),
    (.starter 1, 6), (.handler 1, 6), (.callWait 1, 1), (.waiter 1, 2)].flatMap
    fun p => List.replicate p.2 p.1

def orderlyRun : JobPool := (init 1024).play orderlyActors

theorem orderlyRun_reachable : Relation.ReflTransGen OrderlyStep (init 1024) orderlyRun :=
  play_orderly (init 1024) orderlyActors (by decide +kernel)

theorem slots_not_mixed_up_two_runs :
    .returned 0 0 (some 0) ∈ orderlyRun.log ∧ .returned 1 1 (some 1) ∈ orderlyRun.log ∧
    ∀ j r outputs, .returned j r outputs ∈ orderlyRun.log → outputs = some r :=
  ⟨by decide +kernel, by decide +kernel,
    (slots_not_mixed_up orderlyRun_reachable).2.2.2⟩

/-- The first run completes before its starter sets the occupied flag. -/
def lateStarterActors : List Actor :=
  [(Actor.pick true false, 1), (.scan, 1), (.starter 0, 6), (.handler 0, 6), (.starter 0, 1)].flatMap
    fun p => List.replicate p.2 p.1

def lateStarter : JobPool := (init 1024).play lateStarterActors

/-- The starter's `SetOccupiedJob(true)` after the completion's `SetOccupiedJob(false)`: all steps of
    the run are over, its slot has no use flag and keeps the occupied flag. -/
theorem occupied_after_run : Relation.ReflTransGen Step (init 1024) lateStarter ∧
    lateStarter.runs 0 = some ⟨0, true, false, .over, .over, .none⟩ ∧
    (lateStarter.slots 0).run = some 0 ∧
    (lateStarter.slots 0).useFlag = false ∧ (lateStarter.slots 0).occupiedJob = true :=
  ⟨play_run (init 1024) lateStarterActors, by decide +kernel, by decide +kernel, by decide +kernel, by decide +kernel⟩

end JobPool
end DxRt.Inference
