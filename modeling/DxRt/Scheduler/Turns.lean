import DxRt.Scheduler.Load

/-! lib/dxrt_service/schedule_service.cpp: what `doInference` does with the request it is handed.

    Whatever the scheduler, a round of `schedule` takes a request out of the queue of a device and
    tries it. Then it goes on with the next one, or it stops, and a request that the device has
    refused is pushed again. -/

namespace DxRt.Scheduler
variable {p : Policy} {n : ℕ} {d d' : Fin n} {k : Key} {s : Scheduler p n}

/-- How `doInference` ends, but for the `schedule` that it goes on with. -/
inductive Outcome (p : Policy) (n : ℕ) where
  | goesOn (s : Scheduler p n)
  | sent (s : Scheduler p n)
  | putBack (s : Scheduler p n)

/-- `doInference` without its `schedule`. -/
def attempt (answer : Answer) (d : Fin n) (k : Key) (s : Scheduler p n) : Outcome p n :=
  match s.map.find? k.1 with
  | none => .goesOn s
  | some requests =>
    match requests.find? k.2 with
    | none => .goesOn s
    | some e =>
      if answer.validateTask = false then .goesOn (s.reject d k (-1))
      else if answer.isBlocked then .goesOn (s.reject d k (-2))
      else
        match answer.inferenceRequest with
        | .ok => .sent (s.submit d k e .ok)
        | retval => .putBack ((s.submit d k e retval).revert d k e)

theorem doInference_eq (schedule : Scheduler p n → Scheduler p n) (answer : Answer) :
    doInference schedule answer d k s =
      match attempt answer d k s with
      | .goesOn s' => schedule s'
      | .sent s' | .putBack s' => s' := by
  rw [doInference, attempt]
  cases s.map.find? k.1 with
  | none => rfl
  | some requests =>
    cases hreq : requests.find? k.2 with
    | none => simp only [hreq]
    | some e =>
      simp only [hreq]
      split_ifs
      · rfl
      · rfl
      · cases answer.inferenceRequest <;> rfl

/-- The queues are the same, and the log says nothing about them. -/
def OnlyCalls (s t : Scheduler p n) : Prop :=
  t.queues = s.queues ∧ ∃ l, t.log = l ++ s.log ∧ ∀ ev ∈ l, Neutral ev

theorem OnlyCalls.refl (s : Scheduler p n) : OnlyCalls s s := ⟨rfl, [], rfl, nofun⟩

/-- What an attempt does to the queues and to the log. -/
inductive Attempted (s : Scheduler p n) (d : Fin n) (k : Key) : Outcome p n → Prop where
  | goesOn {s' : Scheduler p n} (hcalls : OnlyCalls s s') : Attempted s d k (.goesOn s')
  | sent {s' : Scheduler p n} {taskId : ℤ} {state : RequestState} (hqueues : s'.queues = s.queues)
      (hlog : s'.log = .inferenceRequest d k taskId state .ok :: s.log) : Attempted s d k (.sent s')
  | putBack {s' : Scheduler p n} {taskId : ℤ} {state : RequestState} {retval : Retval} {time : ℕ}
      (hqueues : s'.queues = Function.update s.queues d ((s.queues d).push k.1 k.2 time))
      (hretval : retval ≠ .ok)
      (hlog : s'.log = .inferenceRequest d k taskId state retval :: s.log) :
      Attempted s d k (.putBack s')

theorem reject_attempted (status : ℤ) : Attempted s d k (.goesOn (s.reject d k status)) := by
  have hrej := reject_rejected s d k status
  refine .goesOn ⟨hrej.queues, [.rejected d k status], hrej.log, fun ev hev => ?_⟩
  rw [List.mem_singleton.mp hev]
  trivial

theorem attempt_attempted (answer : Answer) : Attempted s d k (attempt answer d k s) := by
  have hrevert : ∀ e retval, retval ≠ .ok →
      Attempted s d k (.putBack ((s.submit d k e retval).revert d k e)) :=
    fun e retval hretval => .putBack rfl hretval rfl
  rw [attempt]
  cases s.map.find? k.1 with
  | none => exact .goesOn (.refl s)
  | some requests =>
    cases hreq : requests.find? k.2 with
    | none =>
      simp only [hreq]
      exact .goesOn (.refl s)
    | some e =>
      simp only [hreq]
      split_ifs
      · exact reject_attempted (-1)
      · exact reject_attempted (-2)
      · cases answer.inferenceRequest with
        | ok => exact .sent rfl rfl
        | ebusy => exact hrevert e .ebusy (by decide)
        | eagain => exact hrevert e .eagain (by decide)

/-! ### The state in which `FinishJobs` schedules -/

/-- `FinishJobs` before its `schedule`. -/
def answer (s : Scheduler p n) (d : Fin n) (response : Response) : Scheduler p n :=
  let s := (s.record (.finishJobs d response)).dropLoad d
  match s.map.find? response.procId with
  | none => s
  | some requests =>
    let s := s.decLoadsProc response.procId
    match requests.find? response.reqId with
    | none => s
    | some e =>
      (s.updateTaskInferenceTime response.procId e.data.taskId response.infTime).eraseEntry
        response.key

theorem answer_answered (s : Scheduler p n) (d : Fin n) (response : Response) :
    Answered s d response (s.answer d response) := by
  have hmap : ((s.record (.finishJobs d response)).dropLoad d).map = s.map :=
    (dropLoad_same (s.record (.finishJobs d response)) d).1
  have hentry : s.entry response.key =
      (s.map.find? response.procId).bind fun requests => requests.find? response.reqId := rfl
  rw [answer]
  simp only [hmap]
  cases hproc : s.map.find? response.procId with
  | none =>
    rw [hproc, Option.bind_none] at hentry
    exact dropLoad_answered hentry
  | some requests =>
    rw [hproc, Option.bind_some] at hentry
    cases hreq : requests.find? response.reqId with
    | none =>
      simp only [hreq]
      exact (dropLoad_answered (hentry.trans hreq)).same (decLoadsProc_same _ response.procId)
    | some e =>
      simp only [hreq]
      exact erase_answered e.data.taskId

theorem OnlyCalls.record {t : Scheduler p n} (h : OnlyCalls s t) {ev : Event n} (hev : Neutral ev) :
    OnlyCalls s (t.record ev) := by
  obtain ⟨hqueues, l, hlog, hl⟩ := h
  refine ⟨hqueues, ev :: l, ?_, List.forall_mem_cons.mpr ⟨hev, hl⟩⟩
  rw [Scheduler.record, hlog, List.cons_append]

theorem fire_onlyCalls (r : Scheduler p n × Callbacks n) : OnlyCalls r.1 (fire r) := by
  have hdeferred : OnlyCalls r.1 (r.1.fireDeferred r.2.deferred) := by
    rw [fireDeferred_eq]
    exact ⟨rfl, _, rfl, fun ev hev => (callback_completions _ ev hev).neutral⟩
  rw [fire]
  cases r.2.drained with
  | none =>
    cases r.2.completed with
    | none => exact hdeferred
    | some completed => exact hdeferred.record trivial
  | some drained =>
    have hdrained : OnlyCalls r.1 ((r.1.fireDeferred r.2.deferred).record
        (.onTaskDrained drained.1 drained.2)) := hdeferred.record trivial
    cases r.2.completed with
    | none => exact hdrained
    | some completed => exact hdrained.record trivial

theorem finishLocked_same (s : Scheduler p n) (env : Env) (d : Fin n) (response : Response) :
    (s.finishLocked env d response).1.queues = ((s.answer d response).schedule env d).queues ∧
      (s.finishLocked env d response).1.log = ((s.answer d response).schedule env d).log := by
  rw [finishLocked, answer]
  dsimp only
  cases ((s.record (.finishJobs d response)).dropLoad d).map.find? response.procId with
  | none => exact ⟨rfl, rfl⟩
  | some requests =>
    dsimp only
    cases requests.find? response.reqId with
    | none => exact ⟨rfl, rfl⟩
    | some e => exact ⟨rfl, rfl⟩

/-- After its `schedule`, `FinishJobs` only calls back. -/
theorem finishJobs_onlyCalls (s : Scheduler p n) (env : Env) (d : Fin n) (response : Response) :
    OnlyCalls ((s.answer d response).schedule env d) (s.finishJobs env d response) := by
  have hfire := fire_onlyCalls (s.finishLocked env d response)
  obtain ⟨hqueues, hlog⟩ := finishLocked_same s env d response
  rwa [OnlyCalls, hqueues, hlog] at hfire

/-- `AddScheduler` up to its callbacks. -/
def accept (s : Scheduler p n) (env : Env) (r : Request) (d : Fin n) : Scheduler p n :=
  if s.loads d < SCHED_THRE then (s.enqueue r d).schedule env d else s.enqueue r d

theorem addScheduler_onlyCalls (s : Scheduler p n) (env : Env) (r : Request) (d : Fin n) :
    OnlyCalls (s.accept env r d) (s.addScheduler env r d) :=
  fire_onlyCalls (s.addLocked env r d)

/-- All calls but the two leave the queues as they are. -/
theorem stopped_onlyCalls {t : Scheduler p n} (h : Stopped s t) : OnlyCalls s t :=
  ⟨h.queues, h.neutral⟩

/-! ### The steps of a queue -/

/-- What happens to the queue of a device. -/
inductive QueueEvent where
  /-- `pushRequest`. -/
  | pushed (k : Key)
  /-- `schedule` hands a pair over to `doInference`. -/
  | handed (k : Key)
  /-- `schedule` finds nothing to hand over. -/
  | idle
  deriving DecidableEq

/-- The rounds of `schedule`. -/
def turns : ℕ → Env → Fin n → Scheduler p n → List QueueEvent
  | 0, _, _, _ => []
  | fuel + 1, env, d, s =>
    match (s.queues d).pop (env 0).tie with
    | (none, _) => [.idle]
    | (some k, q) =>
      .handed k :: match attempt (env 0) d k (s.setQueue d q) with
        | .goesOn s' => turns fuel (fun i => env (i + 1)) d s'
        | .sent _ => []
        | .putBack _ => [.pushed k]

def scheduleTurns (s : Scheduler p n) (env : Env) (d : Fin n) : List QueueEvent :=
  turns ((s.queues d).contents.card + 1) env d s

/-- The steps of the queue of device `d` in one call. -/
def queueEvents (s : Scheduler p n) (d : Fin n) : Op n → List QueueEvent
  | .addScheduler env r d' =>
    if d' = d then .pushed r.key ::
      if s.loads d < SCHED_THRE then (s.enqueue r d).scheduleTurns env d else []
    else []
  | .finishJobs env d' response => if d' = d then (s.answer d response).scheduleTurns env d else []
  | .stopTaskInference .. | .stopAllInferenceForProcess .. | .clearRunningRequests .. => []

/-- The steps of the queue of device `d` in a run. -/
def runEvents (d : Fin n) : Scheduler p n → List (Op n) → List QueueEvent
  | _, [] => []
  | s, op :: ops => s.queueEvents d op ++ runEvents d (s.exec op) ops

end DxRt.Scheduler
