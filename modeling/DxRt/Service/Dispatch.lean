import DxRt.Memory.Ownership
import DxRt.Service.Spec

/-! What is checked when a request goes to the device.

    `doInference` asks its listener, the service, whether the task is valid. `IsTaskValid` looks the
    task up in the task store and then asks the memory service of the device, which logs a task
    without memory but refuses only a process without memory. Here the scheduler runs with that
    validator in place: a request is handed over exactly if its task is stored and its process has
    memory for some task. -/

namespace DxRt

/-- The device, key and task of a request that is handed over. -/
def Event.handed {n : ℕ} : Event n → Option (Fin n × Key × ℤ)
  | .inferenceRequest d k taskId _ _ => some (d, k, taskId)
  | _ => none

namespace Scheduler
variable {p : Policy} {n : ℕ} {s t : Scheduler p n} {d : Fin n} {k : Key}

/-! ### The scheduler with a validator -/

/-- `doInference` with `_listener->validateTask`. -/
def doInferenceBy (valid : ℤ → Fin n → ℤ → Bool) (schedule : Scheduler p n → Scheduler p n)
    (answer : Answer) (d : Fin n) (k : Key) (s : Scheduler p n) : Scheduler p n :=
  let validateTask := (s.entry k).elim true fun e => valid k.1 d e.data.taskId
  doInference schedule { answer with validateTask := validateTask } d k s

def scheduleUpToBy (valid : ℤ → Fin n → ℤ → Bool) :
    ℕ → Env → Fin n → Scheduler p n → Scheduler p n
  | 0, _, _, s => s
  | fuel + 1, env, d, s =>
    match (s.queues d).pop (env 0).tie with
    | (none, q) => s.setQueue d q
    | (some k, q) => doInferenceBy valid (scheduleUpToBy valid fuel (fun i => env (i + 1)) d)
        (env 0) d k (s.setQueue d q)

def scheduleBy (valid : ℤ → Fin n → ℤ → Bool) (s : Scheduler p n) (env : Env) (d : Fin n) :
    Scheduler p n :=
  scheduleUpToBy valid ((s.queues d).contents.card + 1) env d s

/-- The locked part of `AddScheduler`, with the `schedule` it calls. -/
def addLockedBy (schedule : Scheduler p n → Scheduler p n) (s : Scheduler p n) (r : Request)
    (d : Fin n) : Scheduler p n × Callbacks n :=
  let s := s.enqueue r d
  let s := if s.loads d < SCHED_THRE then schedule s else s
  let (s, deferred) := s.takeErrors
  (s, ⟨deferred, none, none⟩)

/-- The locked part of `FinishJobs`, with the `schedule` it calls. -/
def finishLockedBy (schedule : Scheduler p n → Scheduler p n) (s : Scheduler p n) (d : Fin n)
    (response : Response) : Scheduler p n × Callbacks n :=
  let s := (s.record (.finishJobs d response)).dropLoad d
  match s.map.find? response.procId with
  | none => (schedule s, ⟨[], none, none⟩)
  | some requests =>
    let s := s.decLoadsProc response.procId
    match requests.find? response.reqId with
    | none => (schedule s, ⟨[], none, none⟩)
    | some e =>
      let taskId := e.data.taskId
      let s := s.updateTaskInferenceTime response.procId taskId response.infTime
      let s := s.eraseEntry response.key
      let drained :=
        if s.taskDrained response.procId taskId then some (response.procId, taskId) else none
      let s := schedule s
      let (s, deferred) := s.takeErrors
      (s, ⟨deferred, drained, if e.state = .cancelled then none else some (response, d)⟩)

theorem addLocked_eq (s : Scheduler p n) (env : Env) (r : Request) (d : Fin n) :
    s.addLocked env r d = s.addLockedBy (fun s => s.schedule env d) r d := rfl

theorem finishLocked_eq (s : Scheduler p n) (env : Env) (d : Fin n) (response : Response) :
    s.finishLocked env d response = s.finishLockedBy (fun s => s.schedule env d) d response := rfl

/-- The state in which `doInference` calls `schedule`, if it does. -/
def nextRound (answer : Answer) (d : Fin n) (k : Key) (s : Scheduler p n) : Scheduler p n :=
  match s.entry k with
  | none => s
  | some _ => s.reject d k (if answer.validateTask = false then -1 else -2)

theorem doInference_congr {f g : Scheduler p n → Scheduler p n} {answer : Answer}
    (h : f (nextRound answer d k s) = g (nextRound answer d k s)) :
    doInference f answer d k s = doInference g answer d k s := by
  rw [nextRound, entry] at h
  rw [doInference, doInference]
  cases hproc : s.map.find? k.1 with
  | none => simpa [hproc] using h
  | some requests =>
    cases hreq : requests.find? k.2 with
    | none => simpa [hproc, hreq] using h
    | some e =>
      simp only [hproc, Option.bind_some, hreq] at h ⊢
      by_cases hvalid : answer.validateTask = false
      · rw [if_pos hvalid] at h
        rw [if_pos hvalid, if_pos hvalid, h]
      · rw [if_neg hvalid] at h
        rw [if_neg hvalid, if_neg hvalid, h]

/-- A run with a validator is a run in which its answers were given. -/
theorem scheduleUpToBy_eq (valid : ℤ → Fin n → ℤ → Bool) (d : Fin n) :
    ∀ (fuel : ℕ) (env : Env) (s : Scheduler p n),
      ∃ env', scheduleUpToBy valid fuel env d s = scheduleUpTo fuel env' d s := by
  intro fuel
  induction fuel with
  | zero => exact fun env s => ⟨env, rfl⟩
  | succ fuel ih =>
    intro env s
    cases hpop : (s.queues d).pop (env 0).tie with
    | mk found q =>
      cases found with
      | none => exact ⟨env, by rw [scheduleUpToBy, scheduleUpTo, hpop]⟩
      | some k =>
        let answer : Answer := { env 0 with
          validateTask := ((s.setQueue d q).entry k).elim true fun e => valid k.1 d e.data.taskId }
        obtain ⟨env', henv'⟩ := ih (fun i => env (i + 1)) (nextRound answer d k (s.setQueue d q))
        let env'' : Env := fun i => i.casesOn answer env'
        have htie : (env'' 0).tie = (env 0).tie := rfl
        refine ⟨env'', ?_⟩
        rw [scheduleUpToBy, scheduleUpTo, htie, hpop]
        exact doInference_congr henv'

theorem scheduleBy_eq (valid : ℤ → Fin n → ℤ → Bool) (env : Env) (d : Fin n) (s : Scheduler p n) :
    ∃ env', s.scheduleBy valid env d = s.schedule env' d :=
  scheduleUpToBy_eq valid d _ env s

/-! ### What reaches the device -/

/-- If `ev` hands a request to a device, then to `d`: it was queued there, with an entry, and the
    validator said yes. -/
def HandedBy (valid : ℤ → Fin n → ℤ → Bool) (s : Scheduler p n) (d : Fin n) (ev : Event n) : Prop :=
  ev.handed ≠ none → ∃ k e state retval, ev = .inferenceRequest d k e.data.taskId state retval ∧
    s.entry k = some e ∧ k ∈ s.queued d ∧ valid k.1 d e.data.taskId = true

theorem HandedBy.mono {valid : ℤ → Fin n → ℤ → Bool} {ev : Event n} (h : HandedBy valid t d ev)
    (hentry : ∀ k e, t.entry k = some e → s.entry k = some e)
    (hqueued : ∀ k ∈ t.queued d, k ∈ s.queued d) : HandedBy valid s d ev := by
  intro hne
  obtain ⟨k, e, state, retval, rfl, he, hk, hvalid⟩ := h hne
  exact ⟨k, e, state, retval, rfl, hentry k e he, hqueued k hk, hvalid⟩

/-- One round: whatever is logged is handed over here or in a later round. -/
theorem doInferenceBy_log {valid : ℤ → Fin n → ℤ → Bool} {next : Scheduler p n → Scheduler p n}
    (answer : Answer) {q : DeviceQueue p} (hc : s.queued d = k ::ₘ q.contents)
    (hnext : ∀ s', ∃ l, (next s').log = l ++ s'.log ∧ ∀ ev ∈ l, HandedBy valid s' d ev) :
    ∃ l, (doInferenceBy valid next answer d k (s.setQueue d q)).log = l ++ s.log ∧
      ∀ ev ∈ l, HandedBy valid s d ev := by
  have hqueued : (s.setQueue d q).queued d = q.contents := by rw [queued_setQueue, if_pos rfl]
  have hsub : ∀ k' ∈ q.contents, k' ∈ s.queued d := fun k' hk' => by
    rw [hc]
    exact Multiset.mem_cons_of_mem hk'
  have hskip := hnext (s.setQueue d q)
  have hreject : ∀ status, ∃ l, (next ((s.setQueue d q).reject d k status)).log = l ++ s.log ∧
      ∀ ev ∈ l, HandedBy valid s d ev := by
    intro status
    have hrej := reject_rejected (s.setQueue d q) d k status
    obtain ⟨l, hl, hhanded⟩ := hnext ((s.setQueue d q).reject d k status)
    refine ⟨l ++ [.rejected d k status], by rw [hl, hrej.log, List.append_assoc]; rfl,
      fun ev hev => ?_⟩
    rcases List.mem_append.mp hev with hev | hev
    · refine (hhanded ev hev).mono (fun k' e he => ?_) fun k' hk' => ?_
      · rw [hrej.entry] at he
        split_ifs at he
        exact he
      · rw [queued, hrej.queues, ← queued, hqueued] at hk'
        exact hsub k' hk'
    · rw [List.mem_singleton.mp hev]
      exact fun hne => absurd rfl hne
  simp only [doInferenceBy, doInference]
  change ∃ l, (match s.map.find? k.1 with | none => _ | some requests => _ : Scheduler p n).log =
    l ++ s.log ∧ _
  cases hproc : s.map.find? k.1 with
  | none =>
    obtain ⟨l, hl, hhanded⟩ := hskip
    exact ⟨l, hl, fun ev hev => (hhanded ev hev).mono (fun _ _ he => he)
      fun k' hk' => hsub k' (hqueued ▸ hk')⟩
  | some requests =>
    have hentry : (s.setQueue d q).entry k = requests.find? k.2 := by
      change (s.map.find? k.1).bind _ = _
      rw [hproc, Option.bind_some]
    cases hreq : requests.find? k.2 with
    | none =>
      simp only [hreq]
      obtain ⟨l, hl, hhanded⟩ := hskip
      exact ⟨l, hl, fun ev hev => (hhanded ev hev).mono (fun _ _ he => he)
        fun k' hk' => hsub k' (hqueued ▸ hk')⟩
    | some e =>
      simp only [hreq, hentry, Option.elim_some]
      cases hvalid : valid k.1 d e.data.taskId with
      | false => exact hreject (-1)
      | true =>
        have hhanded : ∀ retval, HandedBy valid s d
            (.inferenceRequest d k e.data.taskId e.state retval) := fun retval _ =>
          ⟨k, e, e.state, retval, rfl, hentry.trans hreq, by rw [hc]; exact Multiset.mem_cons_self k _,
            hvalid⟩
        simp only [Bool.true_eq_false, if_false]
        split_ifs
        · exact hreject (-2)
        · cases answer.inferenceRequest with
          | ok | ebusy | eagain => exact ⟨[_], rfl, fun ev hev => List.mem_singleton.mp hev ▸ hhanded _⟩

/-- Whatever `schedule` logs is a request handed over with the validator's consent. -/
theorem scheduleUpToBy_log (valid : ℤ → Fin n → ℤ → Bool) (d : Fin n) :
    ∀ (fuel : ℕ) (env : Env) (s : Scheduler p n),
      ∃ l, (scheduleUpToBy valid fuel env d s).log = l ++ s.log ∧ ∀ ev ∈ l, HandedBy valid s d ev := by
  intro fuel
  induction fuel with
  | zero => exact fun env s => ⟨[], rfl, nofun⟩
  | succ fuel ih =>
    intro env s
    rw [scheduleUpToBy]
    rcases DeviceQueue.pop_cases (s.queues d) (env 0).tie with ⟨hpop, _⟩ | ⟨k, q, hpop, hc⟩
    · rw [hpop]
      exact ⟨[], rfl, nofun⟩
    · rw [hpop]
      exact doInferenceBy_log (env 0) hc fun s' => ih _ s'

/-- What a call does after it has released the lock hands nothing over. -/
theorem fire_log (r : Scheduler p n × Callbacks n) :
    ∃ l, (fire r).log = l ++ r.1.log ∧ ∀ ev ∈ l, ev.handed = none := by
  obtain ⟨s, deferred, drained, completed⟩ := r
  have hdeferred : ∀ ev ∈ (completions deferred : List (Event n)), ev.handed = none := by
    intro ev hev
    rw [completions, List.mem_reverse] at hev
    obtain ⟨cb, _, rfl⟩ := List.mem_map.mp hev
    rfl
  simp only [fire, fireDeferred_eq]
  cases drained <;> cases completed
  · exact ⟨_, rfl, hdeferred⟩
  · exact ⟨_ :: _, rfl, List.forall_mem_cons.mpr ⟨rfl, hdeferred⟩⟩
  · exact ⟨_ :: _, rfl, List.forall_mem_cons.mpr ⟨rfl, hdeferred⟩⟩
  · exact ⟨_ :: _ :: _, rfl, List.forall_mem_cons.mpr ⟨rfl,
      List.forall_mem_cons.mpr ⟨rfl, hdeferred⟩⟩⟩

/-- `FinishJobs` calls `schedule` once, when the answered request is gone. -/
theorem finishLockedBy_spec (s : Scheduler p n) (d : Fin n) (response : Response) :
    ∃ (s₁ : Scheduler p n) (rest : Scheduler p n → Scheduler p n × Callbacks n),
      Answered s d response s₁ ∧
      (∀ schedule, s.finishLockedBy schedule d response = rest (schedule s₁)) ∧
      ∀ t, (rest t).1.log = t.log := by
  have hmap : ((s.record (.finishJobs d response)).dropLoad d).map = s.map :=
    (dropLoad_same (s.record (.finishJobs d response)) d).1
  have hentry : s.entry response.key =
      (s.map.find? response.procId).bind fun requests => requests.find? response.reqId := rfl
  cases hproc : s.map.find? response.procId with
  | none =>
    rw [hproc, Option.bind_none] at hentry
    refine ⟨_, fun t => (t, ⟨[], none, none⟩), dropLoad_answered hentry, fun schedule => ?_,
      fun t => rfl⟩
    simp only [finishLockedBy, hmap, hproc]
  | some requests =>
    rw [hproc, Option.bind_some] at hentry
    cases hreq : requests.find? response.reqId with
    | none =>
      have hnone := hentry.trans hreq
      refine ⟨_, fun t => (t, ⟨[], none, none⟩),
        (dropLoad_answered hnone).same (decLoadsProc_same _ response.procId), fun schedule => ?_,
        fun t => rfl⟩
      simp only [finishLockedBy, hmap, hproc, hreq]
    | some e =>
      let s₁ := ((((s.record (.finishJobs d response)).dropLoad d).decLoadsProc response.procId
        ).updateTaskInferenceTime response.procId e.data.taskId response.infTime
        ).eraseEntry response.key
      refine ⟨s₁, fun t => (t.takeErrors.1, ⟨t.takeErrors.2,
        if s₁.taskDrained response.procId e.data.taskId then
          some (response.procId, e.data.taskId) else none,
        if e.state = .cancelled then none else some (response, d)⟩),
        erase_answered e.data.taskId, fun schedule => ?_, fun t => rfl⟩
      simp only [finishLockedBy, hmap, hproc, hreq]
      rfl

/-- What a logged event says when it hands something over. -/
theorem addLockedBy_log (valid : ℤ → Fin n → ℤ → Bool) (s : Scheduler p n) (env : Env) (r : Request)
    (d : Fin n) :
    ∃ l, (fire (s.addLockedBy (fun s => s.scheduleBy valid env d) r d)).log = l ++ s.log ∧
      ∀ ev ∈ l, HandedBy valid (s.enqueue r d) d ev := by
  obtain ⟨l, hl, hnone⟩ := fire_log (s.addLockedBy (fun s => s.scheduleBy valid env d) r d)
  have hinner : ∃ l', (s.addLockedBy (fun s => s.scheduleBy valid env d) r d).1.log =
      l' ++ (s.enqueue r d).log ∧ ∀ ev ∈ l', HandedBy valid (s.enqueue r d) d ev := by
    simp only [addLockedBy, takeErrors]
    split_ifs
    · exact scheduleUpToBy_log valid d _ env (s.enqueue r d)
    · exact ⟨[], rfl, nofun⟩
  obtain ⟨l', hl', hhanded⟩ := hinner
  refine ⟨l ++ l' ++ [.addScheduler d r], ?_, fun ev hev => ?_⟩
  · rw [hl, hl', (admit_added s r d).log]
    simp
  · rcases List.mem_append.mp hev with hev | hev
    · rcases List.mem_append.mp hev with hev | hev
      · exact fun hne => absurd (hnone ev hev) hne
      · exact hhanded ev hev
    · rw [List.mem_singleton.mp hev]
      exact fun hne => absurd rfl hne

theorem finishLockedBy_log (valid : ℤ → Fin n → ℤ → Bool) (s : Scheduler p n) (env : Env)
    (d : Fin n) (response : Response) :
    ∃ l, (fire (s.finishLockedBy (fun s => s.scheduleBy valid env d) d response)).log = l ++ s.log ∧
      ∀ ev ∈ l, HandedBy valid s d ev := by
  obtain ⟨l, hl, hnone⟩ := fire_log (s.finishLockedBy (fun s => s.scheduleBy valid env d) d response)
  obtain ⟨s₁, rest, hans, hrest, hlog⟩ := finishLockedBy_spec s d response
  obtain ⟨l', hl', hhanded⟩ := scheduleUpToBy_log valid d ((s₁.queues d).contents.card + 1) env s₁
  refine ⟨l ++ l' ++ [.finishJobs d response], ?_, fun ev hev => ?_⟩
  · rw [hl, hrest, hlog]
    change l ++ (scheduleUpToBy valid _ env d s₁).log = _
    rw [hl', hans.log]
    simp
  · rcases List.mem_append.mp hev with hev | hev
    · rcases List.mem_append.mp hev with hev | hev
      · exact fun hne => absurd (hnone ev hev) hne
      · refine (hhanded ev hev).mono (fun k e he => ?_) fun k hk => ?_
        · rw [hans.entry] at he
          split_ifs at he
          exact he
        · rwa [queued, hans.queues] at hk
    · rw [List.mem_singleton.mp hev]
      exact fun hne => absurd rfl hne

end Scheduler
namespace Service
variable {p : Policy} {n : ℕ} {s : Service p n}
open Scheduler MemoryService

/-! ### The service as the listener -/

/-- `DxrtServiceV2::IsTaskValid`. -/
def isTaskValid (s : Service p n) (pid : ℤ) (d : Fin n) (taskId : ℤ) : Bool :=
  s.tasks.hasTask pid d taskId && (s.mem d).isTaskValid pid taskId

/-- A step in which every `validateTask` is answered by the service itself. -/
def execGuarded (s : Service p n) : Op n → Service p n
  | .addScheduler env r d =>
    { s with
      sched := fire (s.sched.addLockedBy (fun t => t.scheduleBy s.isTaskValid env d) r d) }
  | .finishJobs env d response =>
    let r := s.sched.finishLockedBy (fun t => t.scheduleBy s.isTaskValid env d) d response
    { s with
      sched := fire r
      threads := (r.2.drained.map fun task => .onTaskDrained task.1 task.2).toList ++ s.threads }
  | op => s.exec op

/-- A guarded step is a step of the service, with those answers. -/
theorem execGuarded_eq (s : Service p n) (op : Op n) : ∃ op', s.execGuarded op = s.exec op' := by
  cases op with
  | addScheduler env r d =>
    obtain ⟨env', henv'⟩ := scheduleBy_eq s.isTaskValid env d (s.sched.enqueue r d)
    refine ⟨.addScheduler env' r d, ?_⟩
    have hlocked : s.sched.addLockedBy (fun t => t.scheduleBy s.isTaskValid env d) r d =
        s.sched.addLocked env' r d := by
      rw [addLocked_eq, addLockedBy, addLockedBy, henv']
    change ({ s with sched := fire _ } : Service p n) = { s with sched := fire _ }
    rw [hlocked]
  | finishJobs env d response =>
    obtain ⟨s₁, rest, _, hrest, _⟩ := finishLockedBy_spec s.sched d response
    obtain ⟨env', henv'⟩ := scheduleBy_eq s.isTaskValid env d s₁
    refine ⟨.finishJobs env' d response, ?_⟩
    have hlocked : s.sched.finishLockedBy (fun t => t.scheduleBy s.isTaskValid env d) d response =
        s.sched.finishLocked env' d response := by
      rw [finishLocked_eq, hrest, hrest, henv']
    change ({ s with sched := fire _, threads := _ } : Service p n) =
      { s with sched := fire _, threads := _ }
    rw [hlocked]
  | handleAllocate pid d taskId size forModel shm =>
    exact ⟨.handleAllocate pid d taskId size forModel shm, rfl⟩
  | handleDeallocate pid d address => exact ⟨.handleDeallocate pid d address, rfl⟩
  | taskInit pid d taskId bound modelMemorySize isBlocked ret =>
    exact ⟨.taskInit pid d taskId bound modelMemorySize isBlocked ret, rfl⟩
  | taskDeInit pid d taskId => exact ⟨.taskDeInit pid d taskId, rfl⟩
  | onClientDisconnected pid => exact ⟨.onClientDisconnected pid, rfl⟩
  | advance th order ret => exact ⟨.advance th order ret, rfl⟩

/-- The requests that a step hands to a device: device, key and task. -/
def handed (s : Service p n) (op : Op n) : List (Fin n × Key × ℤ) :=
  let log := (s.execGuarded op).sched.log
  (log.take (log.length - s.sched.log.length)).filterMap Event.handed

/-- The task is in the store, and the memory service has recorded a block for it. -/
def TaskRegistered (s : Service p n) (pid : ℤ) (d : Fin n) (taskId : ℤ) : Prop :=
  s.tasks.hasTask pid d taskId = true ∧ ∃ a, (s.mem d).Owns (.task pid taskId) a

/-- The task is in the store without a block of its own, and its process has memory for other
    tasks. -/
def Orphan (s : Service p n) (pid : ℤ) (d : Fin n) (taskId : ℤ) : Prop :=
  s.tasks.hasTask pid d taskId = true ∧ (s.mem d).taskAllocInfo.contains pid = true ∧
    ∀ a, ¬ (s.mem d).Owns (.task pid taskId) a

/-- A request for the task waits at device `d` when the step comes to `schedule`. -/
def Waiting (s : Service p n) (d : Fin n) (k : Key) (taskId : ℤ) : Op n → Prop
  | .addScheduler _ r d' => d = d' ∧
    (k = r.key ∧ taskId = r.taskId ∨ k ∈ s.sched.queued d ∧
      ∃ e, s.sched.entry k = some e ∧ e.data.taskId = taskId)
  | .finishJobs _ d' _ => d = d' ∧ k ∈ s.sched.queued d ∧
    ∃ e, s.sched.entry k = some e ∧ e.data.taskId = taskId
  | _ => False

/-- No waiting request belongs to an orphan. -/
def NoOrphan (s : Service p n) (op : Op n) : Prop :=
  ∀ d k taskId, Waiting s d k taskId op → ¬ Orphan s k.1 d taskId

theorem isTaskValid_iff {pid : ℤ} {d : Fin n} {taskId : ℤ} :
    s.isTaskValid pid d taskId = true ↔
      s.tasks.hasTask pid d taskId = true ∧ (s.mem d).taskAllocInfo.contains pid = true := by
  rw [isTaskValid, Bool.and_eq_true]
  rfl

/-- A task that passes is registered or an orphan. -/
theorem registered_iff {pid : ℤ} {d : Fin n} {taskId : ℤ}
    (h : s.isTaskValid pid d taskId = true) :
    TaskRegistered s pid d taskId ↔ ¬ Orphan s pid d taskId := by
  obtain ⟨hhas, hproc⟩ := isTaskValid_iff.mp h
  rw [TaskRegistered, Orphan]
  simp only [hhas, hproc, true_and, not_forall, not_not]

/-- A task with a block belongs to a process with memory. -/
theorem isTaskValid_of_registered {pid : ℤ} {d : Fin n} {taskId : ℤ}
    (h : TaskRegistered s pid d taskId) : s.isTaskValid pid d taskId = true := by
  obtain ⟨hhas, a, howns⟩ := h
  obtain ⟨tasks, _, hp, _⟩ := owns_task_iff.mp howns
  exact isTaskValid_iff.mpr ⟨hhas, by rw [SortedMap.contains, hp]; rfl⟩

theorem mem_handed {op : Op n} {l : List (Event n)} {x : Fin n × Key × ℤ}
    (hlog : (s.execGuarded op).sched.log = l ++ s.sched.log) (hx : x ∈ s.handed op) :
    ∃ ev ∈ l, ev.handed = some x := by
  have htake : (s.execGuarded op).sched.log.take
      ((s.execGuarded op).sched.log.length - s.sched.log.length) = l := by
    rw [hlog, List.length_append, Nat.add_sub_cancel, List.take_left]
  rw [handed, htake] at hx
  exact List.mem_filterMap.mp hx

/-- The other steps hand nothing over. -/
theorem exec_handed {op : Op n} (hadd : ∀ env r d, op ≠ .addScheduler env r d)
    (hfinish : ∀ env d response, op ≠ .finishJobs env d response) :
    ∃ l, (s.exec op).sched.log = l ++ s.sched.log ∧ ∀ ev ∈ l, ev.handed = none := by
  have heffect := exec_effect s op
  generalize s.exec op = t at heffect ⊢
  cases heffect with
  | client _ hcall => exact ⟨[], by rw [hcall.sched]; rfl, nofun⟩
  | added env r d => exact absurd rfl (hadd env r d)
  | finished env d response => exact absurd rfl (hfinish env d response)
  | disconnected | idle => exact ⟨[], rfl, nofun⟩
  | moved order ret _ =>
    obtain ⟨ks, hks, _⟩ := (threadStep_stopped s order ret _).log
    refine ⟨ks.map .stopped, hks, fun ev hev => ?_⟩
    obtain ⟨k, _, rfl⟩ := List.mem_map.mp hev
    rfl

/-- A request that is handed over was waiting, and its task passed. -/
theorem handed_waiting {op : Op n} {d : Fin n} {k : Key} {taskId : ℤ}
    (hx : (d, k, taskId) ∈ s.handed op) :
    Waiting s d k taskId op ∧ s.isTaskValid k.1 d taskId = true := by
  have hother : (∀ env r d, op ≠ .addScheduler env r d) →
      (∀ env d response, op ≠ .finishJobs env d response) → s.execGuarded op = s.exec op →
      Waiting s d k taskId op ∧ s.isTaskValid k.1 d taskId = true := by
    intro hadd hfinish heq
    obtain ⟨l, hlog, hnone⟩ := exec_handed (s := s) hadd hfinish
    rw [← heq] at hlog
    obtain ⟨ev, hev, hhanded⟩ := mem_handed hlog hx
    rw [hnone ev hev] at hhanded
    cases hhanded
  cases op with
  | addScheduler env r d' =>
    obtain ⟨l, hlog, hl⟩ := addLockedBy_log s.isTaskValid s.sched env r d'
    change (s.execGuarded (.addScheduler env r d')).sched.log = _ at hlog
    obtain ⟨ev, hev, hhanded⟩ := mem_handed hlog hx
    obtain ⟨k', e, state, retval, rfl, he, hk, hvalid⟩ := hl ev hev (by rw [hhanded]; nofun)
    cases hhanded
    have hadded := admit_added s.sched r d
    refine ⟨⟨rfl, ?_⟩, hvalid⟩
    rw [hadded.entry] at he
    split_ifs at he with hkey
    · cases he
      exact Or.inl ⟨hkey, rfl⟩
    · rw [hadded.queued, if_pos rfl, Multiset.mem_cons] at hk
      exact Or.inr ⟨hk.resolve_left hkey, e, he, rfl⟩
  | finishJobs env d' response =>
    obtain ⟨l, hlog, hl⟩ := finishLockedBy_log s.isTaskValid s.sched env d' response
    change (s.execGuarded (.finishJobs env d' response)).sched.log = _ at hlog
    obtain ⟨ev, hev, hhanded⟩ := mem_handed hlog hx
    obtain ⟨k', e, state, retval, rfl, he, hk, hvalid⟩ := hl ev hev (by rw [hhanded]; nofun)
    cases hhanded
    exact ⟨⟨rfl, hk, e, he, rfl⟩, hvalid⟩
  | handleAllocate | handleDeallocate | taskInit | taskDeInit | onClientDisconnected | advance =>
    exact hother nofun nofun rfl

/-! ### Runs -/

def runGuarded (s : Service p n) (ops : List (Op n)) : Service p n := ops.foldl execGuarded s

/-- Every step of the list satisfies `ok` when its turn comes. -/
def GuardedRun (ok : Service p n → Op n → Prop) : Service p n → List (Op n) → Prop
  | _, [] => True
  | s, op :: ops => ok s op ∧ GuardedRun ok (s.execGuarded op) ops

/-- All requests handed over in a run, each with the state at that moment. -/
def dispatches : Service p n → List (Op n) → List (Service p n × Fin n × Key × ℤ)
  | _, [] => []
  | s, op :: ops => (s.handed op).map (fun x => (s, x)) ++ dispatches (s.execGuarded op) ops

/-- A dispatch of a run is a request handed over by one of its steps. -/
theorem mem_dispatches {ok : Service p n → Op n → Prop} {ops : List (Op n)}
    (hrun : GuardedRun ok s ops) {t : Service p n} {d : Fin n} {k : Key} {taskId : ℤ}
    (hx : (t, d, k, taskId) ∈ dispatches s ops) : ∃ op, ok t op ∧ (d, k, taskId) ∈ t.handed op := by
  induction ops generalizing s with
  | nil => cases hx
  | cons op ops ih =>
    rw [dispatches, List.mem_append] at hx
    rcases hx with hx | hx
    · obtain ⟨y, hy, heq⟩ := List.mem_map.mp hx
      cases heq
      exact ⟨op, hrun.1, hy⟩
    · exact ih hrun.2 hx

/-- What the last step of a run hands over. -/
theorem mem_dispatches_last {pre : List (Op n)} {op : Op n} {x : Fin n × Key × ℤ} :
    ∀ {s : Service p n}, x ∈ (s.runGuarded pre).handed op →
      (s.runGuarded pre, x) ∈ dispatches s (pre ++ [op]) := by
  induction pre with
  | nil =>
    intro s hx
    exact List.mem_append_left _ (List.mem_map_of_mem hx)
  | cons first pre ih =>
    intro s hx
    exact List.mem_append_right _ (ih hx)

theorem guardedRun_true : ∀ (ops : List (Op n)) (s : Service p n),
    GuardedRun (fun _ _ => True) s ops := by
  intro ops
  induction ops with
  | nil => exact fun _ => trivial
  | cons op ops ih => exact fun s => ⟨trivial, ih _⟩

/-- In every run with the service as its own validator: if no request waits for an orphan when
    `schedule` is called, then whatever goes to a device belongs to a stored task with a recorded
    block. This is exact: a request that goes to a device is registered if and only if its task is
    no orphan, and `IsTaskValid` is true of exactly the registered tasks and the orphans. -/
theorem dispatch_guard {memAddr memSize : Fin n → ℕ} (ops : List (Op n)) :
    (GuardedRun NoOrphan (init p memAddr memSize) ops →
      ∀ t d k taskId, (t, d, k, taskId) ∈ dispatches (init p memAddr memSize) ops →
        TaskRegistered t k.1 d taskId) ∧
    (∀ t d k taskId, (t, d, k, taskId) ∈ dispatches (init p memAddr memSize) ops →
      (TaskRegistered t k.1 d taskId ↔ ¬ Orphan t k.1 d taskId)) ∧
    ∀ (s : Service p n) pid d taskId, s.isTaskValid pid d taskId = true ↔
      TaskRegistered s pid d taskId ∨ Orphan s pid d taskId := by
  refine ⟨fun hrun t d k taskId hx => ?_, fun t d k taskId hx => ?_, fun s pid d taskId => ?_⟩
  · obtain ⟨op, hop, hhanded⟩ := mem_dispatches hrun hx
    obtain ⟨hwaiting, hvalid⟩ := handed_waiting hhanded
    exact (registered_iff hvalid).mpr (hop d k taskId hwaiting)
  · obtain ⟨op, _, hhanded⟩ := mem_dispatches (guardedRun_true ops _) hx
    exact registered_iff (handed_waiting hhanded).2
  · constructor
    · intro hvalid
      by_cases horphan : Orphan s pid d taskId
      · exact Or.inr horphan
      · exact Or.inl ((registered_iff hvalid).mpr horphan)
    · rintro (hreg | ⟨hhas, hproc, _⟩)
      · exact isTaskValid_of_registered hreg
      · exact isTaskValid_iff.mpr ⟨hhas, hproc⟩

/-- A service with one device of four pages. -/
def oneDevice : Service .fifo 1 := init .fifo (fun _ => 2 ^ 32) fun _ => 16384

/-- Process 1 has tasks 5 and 6 on the device, each with a page. -/
def twoBackedTasks : List (Op 1) :=
  [.handleAllocate 1 0 5 4096 false (.ok ⟨1, 4096, 2 ^ 30, 0, 0, 3⟩),
    .handleAllocate 1 0 6 4096 false (.ok ⟨2, 4096, 2 ^ 31, 0, 0, 4⟩),
    .taskInit 1 0 5 .normal 4096 false 0, .taskInit 1 0 6 .normal 4096 false 0]

/-- A request for task 5 is handed over; the task is registered. -/
theorem dispatch_guard_two_tasks : ∃ t : Service .fifo 1,
    (t, 0, (1, 7), 5) ∈
      dispatches oneDevice (twoBackedTasks ++ [.addScheduler accepting ⟨1, 7, 5⟩ 0]) ∧
      TaskRegistered t 1 0 5 := by
  have hdispatch : (oneDevice.runGuarded twoBackedTasks, 0, (1, 7), 5) ∈
      dispatches oneDevice (twoBackedTasks ++ [.addScheduler accepting ⟨1, 7, 5⟩ 0]) :=
    mem_dispatches_last (by decide +kernel)
  have hempty : (oneDevice.runGuarded twoBackedTasks).sched.queued 0 = 0 := by decide +kernel
  have hrun : GuardedRun NoOrphan oneDevice
      (twoBackedTasks ++ [.addScheduler accepting ⟨1, 7, 5⟩ 0]) := by
    refine ⟨nofun, nofun, nofun, nofun, ?_, trivial⟩
    change NoOrphan (oneDevice.runGuarded twoBackedTasks) _
    rintro d k taskId ⟨rfl, ⟨rfl, rfl⟩ | ⟨hk, _⟩⟩ ⟨_, _, hno⟩
    · exact hno 0 (by decide +kernel)
    · rw [hempty] at hk
      cases hk
  exact ⟨_, hdispatch, (dispatch_guard _).1 hrun _ 0 (1, 7) 5 hdispatch⟩

/-- The page of task 5 is freed, and then a request for task 5 goes to the device: the process still
    has memory, for task 6. -/
theorem dispatch_guard_page_freed : ∃ t : Service .fifo 1,
    (t, 0, (1, 7), 5) ∈ dispatches oneDevice
      (twoBackedTasks ++ [.handleDeallocate 1 0 1] ++ [.addScheduler accepting ⟨1, 7, 5⟩ 0]) ∧
      ¬ TaskRegistered t 1 0 5 := by
  refine ⟨_, mem_dispatches_last (by decide +kernel), ?_⟩
  rintro ⟨_, a, howns⟩
  have hnone : ((oneDevice.runGuarded (twoBackedTasks ++ [.handleDeallocate 1 0 1])).mem 0).addrsOf
      (.task 1 5) = .empty := by decide +kernel
  rw [Owns, hnone] at howns
  cases howns

end Service
end DxRt
