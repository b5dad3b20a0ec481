import DxRt.Scheduler.Service

/-! What each scheduler function does, said once.

    Claims about runs look at the state through five views: the request map as a function from keys
    (`entry`), the contents of the queues (`queued`), the loads, the deferred errors and the log.
    `Schedules` lists what the mutual recursion of `schedule` and `doInference` can do; `Added`,
    `Answered` and `Stopped` say what the functions do around it. -/

namespace DxRt.Scheduler
variable {p : Policy} {n : ℕ} {s t : Scheduler p n} {d : Fin n} {k : Key} {e : RequestEntry n}

/-- The (process, request) pairs queued for a device. -/
def queued (s : Scheduler p n) (d : Fin n) : Multiset Key := (s.queues d).contents

/-! ### Views after the elementary updates -/

theorem entry_setEntry (s : Scheduler p n) (k : Key) (e : RequestEntry n) (k' : Key) :
    (s.setEntry k e).entry k' = if k' = k then some e else s.entry k' := by
  obtain ⟨pid, req⟩ := k
  obtain ⟨pid', req'⟩ := k'
  simp only [entry, setEntry, SortedMap.find?_insert, Prod.mk.injEq]
  by_cases hp : pid' = pid
  · subst hp
    rw [if_pos rfl, Option.bind_some, SortedMap.find?_insert]
    by_cases hr : req' = req
    · simp [hr]
    · rw [if_neg hr, if_neg (fun h => hr h.2)]
      cases s.map.find? pid' <;> rfl
  · rw [if_neg hp, if_neg (fun h => hp h.1)]

theorem entry_eraseEntry (s : Scheduler p n) (k k' : Key) :
    (s.eraseEntry k).entry k' = if k' = k then none else s.entry k' := by
  obtain ⟨pid, req⟩ := k
  obtain ⟨pid', req'⟩ := k'
  rw [eraseEntry]
  cases hfind : s.map.find? pid with
  | none =>
    split_ifs with h
    · obtain ⟨rfl, rfl⟩ := Prod.mk.inj h
      simp [entry, hfind]
    · rfl
  | some requests =>
    simp only [entry, SortedMap.find?_insert, Prod.mk.injEq]
    by_cases hp : pid' = pid
    · subst hp
      rw [if_pos rfl, Option.bind_some, SortedMap.find?_erase, hfind, Option.bind_some]
      by_cases hr : req' = req
      · simp [hr]
      · rw [if_neg hr, if_neg (fun h => hr h.2)]
    · rw [if_neg hp, if_neg (fun h => hp h.1)]

theorem queued_setQueue (s : Scheduler p n) (d : Fin n) (q : DeviceQueue p) (d' : Fin n) :
    (s.setQueue d q).queued d' = if d' = d then q.contents else s.queued d' := by
  simp only [queued, setQueue, Function.update_apply]
  split_ifs <;> rfl

/-- Updates of the process loads and of the task times are invisible. -/
structure SameViews (s t : Scheduler p n) : Prop where
  map : t.map = s.map
  loads : t.loads = s.loads
  queues : t.queues = s.queues
  pending : t.pendingErrorCallbacks = s.pendingErrorCallbacks
  log : t.log = s.log

theorem decLoadsProc_same (s : Scheduler p n) (pid : ℤ) : SameViews s (s.decLoadsProc pid) := by
  rw [decLoadsProc]
  split
  · exact ⟨rfl, rfl, rfl, rfl, rfl⟩
  · split_ifs <;> exact ⟨rfl, rfl, rfl, rfl, rfl⟩

theorem updateTaskInferenceTime_same (s : Scheduler p n) (pid taskId : ℤ) (time : ℕ) :
    SameViews s (s.updateTaskInferenceTime pid taskId time) := by
  cases p with
  | fifo | roundRobin => exact ⟨rfl, rfl, rfl, rfl, rfl⟩
  | sjf =>
    simp only [updateTaskInferenceTime]
    split_ifs <;> exact ⟨rfl, rfl, rfl, rfl, rfl⟩

theorem SameViews.trans {u : Scheduler p n} (h : SameViews s t) (h' : SameViews t u) :
    SameViews s u :=
  ⟨h'.map.trans h.map, h'.loads.trans h.loads, h'.queues.trans h.queues,
    h'.pending.trans h.pending, h'.log.trans h.log⟩

theorem SameViews.entry (h : SameViews s t) (k : Key) : t.entry k = s.entry k := by
  rw [Scheduler.entry, Scheduler.entry, h.map]

theorem eraseEntry_same (s : Scheduler p n) (k : Key) :
    (s.eraseEntry k).loads = s.loads ∧ (s.eraseEntry k).queues = s.queues ∧
      (s.eraseEntry k).pendingErrorCallbacks = s.pendingErrorCallbacks ∧
      (s.eraseEntry k).log = s.log := by
  rw [eraseEntry]
  split <;> exact ⟨rfl, rfl, rfl, rfl⟩

/-! ### `schedule` and `doInference` -/

/-- What a refused request does to the views. -/
structure Rejected (s : Scheduler p n) (d : Fin n) (k : Key) (status : ℤ) (t : Scheduler p n) :
    Prop where
  entry : ∀ k', t.entry k' = if k' = k then none else s.entry k'
  loads : t.loads = s.loads
  queues : t.queues = s.queues
  pending : t.pendingErrorCallbacks = s.pendingErrorCallbacks ++ [(errorResp k status, d)]
  log : t.log = .rejected d k status :: s.log

theorem reject_rejected (s : Scheduler p n) (d : Fin n) (k : Key) (status : ℤ) :
    Rejected s d k status (s.reject d k status) := by
  have hdec := decLoadsProc_same s k.1
  obtain ⟨hloads, hqueues, hpending, hlog⟩ := eraseEntry_same (s.decLoadsProc k.1) k
  refine ⟨fun k' => ?_, hloads.trans hdec.loads, hqueues.trans hdec.queues, ?_, ?_⟩
  · exact (entry_eraseEntry _ k k').trans (by rw [hdec.entry])
  · exact congrArg (· ++ _) (hpending.trans hdec.pending)
  · exact congrArg (_ :: ·) (hlog.trans hdec.log)

/-- A request given to a device that takes it (`ok`), or that is busy and gets it back. -/
structure Submitted (s : Scheduler p n) (d : Fin n) (k : Key) (e : RequestEntry n)
    (retval : Retval) (t : Scheduler p n) : Prop where
  entry : ∀ k', t.entry k' = if k' = k then
    some (if retval = .ok then { e with state := .running, deviceId := some d }
      else { e with state := .pending, deviceId := none }) else s.entry k'
  loads : ∀ d', t.loads d' = s.loads d' + if d' = d ∧ retval = .ok then 1 else 0
  queued : ∀ d', t.queued d' = if d' = d ∧ retval ≠ .ok then k ::ₘ s.queued d else s.queued d'
  pending : t.pendingErrorCallbacks = s.pendingErrorCallbacks
  log : t.log = .inferenceRequest d k e.data.taskId e.state retval :: s.log

theorem submit_submitted (s : Scheduler p n) (d : Fin n) (k : Key) (e : RequestEntry n) :
    Submitted s d k e .ok (s.submit d k e .ok) where
  entry k' := by
    rw [if_pos rfl]
    exact entry_setEntry s k _ k'
  loads d' := by
    simp only [submit, record, addLoad, setEntry, Function.update_apply]
    split_ifs with h1 h2 h2
    · rw [h1]
    · exact absurd ⟨h1, trivial⟩ h2
    · exact absurd h2.1 h1
    · rw [add_zero]
  queued d' := by simp [submit, record, addLoad, setEntry, queued]
  pending := rfl
  log := rfl

theorem revert_submitted (s : Scheduler p n) (d : Fin n) (k : Key) (e : RequestEntry n)
    {retval : Retval} (hret : retval ≠ .ok) :
    Submitted s d k e retval ((s.submit d k e retval).revert d k e) where
  entry k' := by
    rw [if_neg hret]
    have h₁ := entry_setEntry ((s.submit d k e retval).addLoad d (-1)) k
      { e with state := .pending, deviceId := none } k'
    have h₂ := entry_setEntry s k { e with state := .running, deviceId := some d } k'
    refine h₁.trans ?_
    split_ifs with hk
    · rfl
    · exact h₂.trans (if_neg hk)
  loads d' := by
    have hloads : ((s.submit d k e retval).revert d k e).loads d' = s.loads d' := by
      simp only [revert, pushRequest, setQueue, setEntry, submit, record, addLoad,
        Function.update_apply]
      split_ifs with h
      · rw [h]; omega
      · rfl
    rw [hloads, if_neg fun h => hret h.2, add_zero]
  queued d' := by
    simp only [hret, ne_eq, not_false_iff, and_true]
    refine (queued_setQueue _ d _ d').trans ?_
    split_ifs with h
    · exact DeviceQueue.contents_push _ _ _ _
    · rfl
  pending := rfl
  log := rfl

/-- The runs of `schedule`: requests that have left the map are skipped, refused ones leave it,
    until the queue is empty or a device was asked. -/
inductive Schedules (d : Fin n) : Scheduler p n → Scheduler p n → Prop where
  | idle {s : Scheduler p n} (hempty : s.queued d = 0) : Schedules d s s
  | skip {s t : Scheduler p n} {k : Key} {q : DeviceQueue p}
      (hpop : s.queued d = k ::ₘ q.contents) (hentry : s.entry k = none)
      (hrest : Schedules d (s.setQueue d q) t) : Schedules d s t
  | reject {s s' t : Scheduler p n} {k : Key} {q : DeviceQueue p} {e : RequestEntry n} {status : ℤ}
      (hpop : s.queued d = k ::ₘ q.contents) (hentry : s.entry k = some e)
      (hstatus : status = -1 ∨ status = -2)
      (hs' : Rejected (s.setQueue d q) d k status s') (hrest : Schedules d s' t) : Schedules d s t
  | submit {s t : Scheduler p n} {k : Key} {q : DeviceQueue p} {e : RequestEntry n}
      {retval : Retval} (hpop : s.queued d = k ::ₘ q.contents) (hentry : s.entry k = some e)
      (ht : Submitted (s.setQueue d q) d k e retval t) : Schedules d s t

/-- `schedule` puts nothing into the map. -/
theorem Schedules.entry_none (h : Schedules d s t) (hs : s.entry k = none) : t.entry k = none := by
  induction h with
  | idle => exact hs
  | skip _ _ _ ih => exact ih hs
  | reject _ _ _ hs' _ ih =>
    refine ih ?_
    rw [hs'.entry]
    split_ifs
    · rfl
    · exact hs
  | @submit s t k' _ e _ _ hentry ht =>
    have hk : k ≠ k' := by
      rintro rfl
      rw [hs] at hentry
      cases hentry
    rw [ht.entry, if_neg hk]
    exact hs

/-- `schedule` only adds to the log. -/
theorem Schedules.log_suffix (h : Schedules d s t) : ∃ l, t.log = l ++ s.log := by
  induction h with
  | idle => exact ⟨[], rfl⟩
  | skip _ _ _ ih => exact ih
  | @reject s s' t k q e status _ _ _ hs' _ ih =>
    obtain ⟨l, hl⟩ := ih
    exact ⟨l ++ [.rejected d k status], by rw [hl, hs'.log, List.append_assoc]; rfl⟩
  | submit _ _ ht => exact ⟨[_], ht.log⟩

theorem doInference_cases {q : DeviceQueue p} {next : Scheduler p n → Scheduler p n}
    (answer : Answer) (hpop : s.queued d = k ::ₘ q.contents)
    (hnext : ∀ s' : Scheduler p n, s'.queued d = q.contents → Schedules d s' (next s')) :
    Schedules d s (doInference next answer d k (s.setQueue d q)) := by
  have hq : (s.setQueue d q).queued d = q.contents := by rw [queued_setQueue, if_pos rfl]
  have hreject : ∀ status, status = -1 ∨ status = -2 → ∀ e, s.entry k = some e →
      Schedules d s (next ((s.setQueue d q).reject d k status)) := by
    intro status hstatus e hentry
    have hrej := reject_rejected (s.setQueue d q) d k status
    refine .reject hpop hentry hstatus hrej (hnext _ ?_)
    rw [queued, hrej.queues, ← queued, hq]
  have hmap : (s.setQueue d q).map = s.map := rfl
  rw [doInference, hmap]
  cases hproc : s.map.find? k.1 with
  | none => exact .skip hpop (by rw [entry, hproc]; rfl) (hnext _ hq)
  | some requests =>
    have hentry : s.entry k = requests.find? k.2 := by rw [entry, hproc, Option.bind_some]
    cases hreq : requests.find? k.2 with
    | none =>
      simp only [hreq]
      exact .skip hpop (hentry.trans hreq) (hnext _ hq)
    | some e =>
      simp only [hreq]
      rw [hreq] at hentry
      split_ifs
      · exact hreject (-1) (Or.inl rfl) e hentry
      · exact hreject (-2) (Or.inr rfl) e hentry
      · cases answer.inferenceRequest with
        | ok => exact .submit hpop hentry (submit_submitted _ d k e)
        | ebusy => exact .submit hpop hentry (revert_submitted _ d k e (by decide))
        | eagain => exact .submit hpop hentry (revert_submitted _ d k e (by decide))

theorem scheduleUpTo_schedules : ∀ (fuel : ℕ) (env : Env) (s : Scheduler p n),
    (s.queued d).card < fuel → Schedules d s (scheduleUpTo fuel env d s)
  | 0, _, _, h => absurd h (Nat.not_lt_zero _)
  | fuel + 1, env, s, h => by
    rw [scheduleUpTo]
    rcases DeviceQueue.pop_cases (s.queues d) (env 0).tie with ⟨hpop, hempty⟩ | ⟨k, q, hpop, hc⟩
    · rw [hpop]
      have hsame : s.setQueue d (s.queues d) = s := by simp [setQueue]
      simp only [hsame]
      exact .idle hempty
    · rw [hpop]
      refine doInference_cases (env 0) hc fun s' hs' => scheduleUpTo_schedules fuel _ s' ?_
      have hcard : (s.queued d).card = q.contents.card + 1 := by
        rw [queued, hc, Multiset.card_cons]
      rw [hs']
      omega

/-- The length of the queue is fuel enough. -/
theorem schedule_schedules (s : Scheduler p n) (env : Env) (d : Fin n) :
    Schedules d s (s.schedule env d) :=
  scheduleUpTo_schedules _ env s (Nat.lt_succ_self _)

/-! ### `AddScheduler` and `FinishJobs` -/

/-- `AddScheduler` up to the call of `schedule`. -/
structure Added (s : Scheduler p n) (r : Request) (d : Fin n) (t : Scheduler p n) : Prop where
  entry : ∀ k, t.entry k = if k = r.key then some ⟨r, .pending, none⟩ else s.entry k
  loads : t.loads = s.loads
  queued : ∀ d', t.queued d' = if d' = d then r.key ::ₘ s.queued d else s.queued d'
  pending : t.pendingErrorCallbacks = s.pendingErrorCallbacks
  log : t.log = .addScheduler d r :: s.log

/-- `FinishJobs` up to the call of `schedule`. -/
structure Answered (s : Scheduler p n) (d : Fin n) (response : Response) (t : Scheduler p n) :
    Prop where
  entry : ∀ k, t.entry k = if k = response.key then none else s.entry k
  loads : ∀ d', t.loads d' = if d' = d ∧ 0 < s.loads d then s.loads d - 1 else s.loads d'
  queues : t.queues = s.queues
  pending : t.pendingErrorCallbacks = s.pendingErrorCallbacks
  log : t.log = .finishJobs d response :: s.log

theorem admit_added (s : Scheduler p n) (r : Request) (d : Fin n) :
    Added s r d (s.enqueue r d) := by
  refine ⟨fun k => entry_setEntry _ r.key _ k, rfl, fun d' => ?_, rfl, rfl⟩
  refine (queued_setQueue _ d _ d').trans ?_
  split_ifs with h
  · exact DeviceQueue.contents_push _ _ _ _
  · rfl

theorem addLocked_spec (s : Scheduler p n) (env : Env) (r : Request) (d : Fin n) :
    ∃ s₁ s₂, Added s r d s₁ ∧
      (s.loads d < SCHED_THRE ∧ Schedules d s₁ s₂ ∨ SCHED_THRE ≤ s.loads d ∧ s₂ = s₁) ∧
      s.addLocked env r d = (s₂.takeErrors.1, ⟨s₂.pendingErrorCallbacks, none, none⟩) := by
  have hadded := admit_added s r d
  by_cases hload : (s.enqueue r d).loads d < SCHED_THRE
  · refine ⟨_, (s.enqueue r d).schedule env d, hadded, Or.inl ⟨?_, schedule_schedules _ env d⟩, ?_⟩
    · rw [hadded.loads] at hload; exact hload
    · simp only [addLocked, if_pos hload]; rfl
  · refine ⟨_, s.enqueue r d, hadded, Or.inr ⟨?_, rfl⟩, ?_⟩
    · rw [hadded.loads] at hload; exact not_lt.mp hload
    · simp only [addLocked, if_neg hload]; rfl

theorem dropLoad_loads (s : Scheduler p n) (d d' : Fin n) :
    (s.dropLoad d).loads d' = if d' = d ∧ 0 < s.loads d then s.loads d - 1 else s.loads d' := by
  rw [dropLoad]
  by_cases hpos : 0 < s.loads d
  · rw [if_pos hpos]
    by_cases hd : d' = d
    · subst hd
      rw [if_pos ⟨rfl, hpos⟩]
      simp only [addLoad, Function.update_self]
      omega
    · rw [if_neg fun h => hd h.1]
      simp [addLoad, Function.update_of_ne hd]
  · rw [if_neg hpos, if_neg fun h => hpos h.2]

theorem dropLoad_same (s : Scheduler p n) (d : Fin n) :
    (s.dropLoad d).map = s.map ∧ (s.dropLoad d).queues = s.queues ∧
      (s.dropLoad d).pendingErrorCallbacks = s.pendingErrorCallbacks ∧
      (s.dropLoad d).log = s.log := by
  rw [dropLoad]
  split_ifs <;> exact ⟨rfl, rfl, rfl, rfl⟩

theorem dropLoad_answered {response : Response} (h : s.entry response.key = none) :
    Answered s d response ((s.record (.finishJobs d response)).dropLoad d) := by
  obtain ⟨hmap, hqueues, hpending, hlog⟩ := dropLoad_same (s.record (.finishJobs d response)) d
  refine ⟨fun k => ?_, dropLoad_loads _ d, hqueues, hpending, hlog⟩
  have hsame : ((s.record (.finishJobs d response)).dropLoad d).entry k = s.entry k := by
    rw [entry, hmap]; rfl
  rw [hsame]
  split_ifs with hk
  · rw [hk, h]
  · rfl

theorem Answered.same {response : Response} {t' : Scheduler p n} (h : Answered s d response t)
    (ht : SameViews t t') : Answered s d response t' where
  entry k := (ht.entry k).trans (h.entry k)
  loads d' := by rw [ht.loads, h.loads]
  queues := ht.queues.trans h.queues
  pending := ht.pending.trans h.pending
  log := ht.log.trans h.log

/-- The state in which `FinishJobs` calls `schedule` when the request is in the map. -/
theorem erase_answered {response : Response} (taskId : ℤ) :
    Answered s d response ((((((s.record (.finishJobs d response)).dropLoad d).decLoadsProc
      response.procId).updateTaskInferenceTime response.procId taskId response.infTime).eraseEntry
      response.key)) := by
  obtain ⟨hmap, hqueues, hpending, hlog⟩ := dropLoad_same (s.record (.finishJobs d response)) d
  have hdec := decLoadsProc_same ((s.record (.finishJobs d response)).dropLoad d) response.procId
  have htime := updateTaskInferenceTime_same (((s.record (.finishJobs d response)).dropLoad d
    ).decLoadsProc response.procId) response.procId taskId response.infTime
  obtain ⟨heloads, hequeues, hepending, helog⟩ := eraseEntry_same
    ((((s.record (.finishJobs d response)).dropLoad d).decLoadsProc response.procId
      ).updateTaskInferenceTime response.procId taskId response.infTime) response.key
  refine ⟨fun k => ?_, fun d' => ?_, ?_, ?_, ?_⟩
  · have hsame : ((s.record (.finishJobs d response)).dropLoad d).entry k = s.entry k := by
      rw [entry, hmap]; rfl
    rw [entry_eraseEntry, htime.entry, hdec.entry, hsame]
  · rw [heloads, htime.loads, hdec.loads, dropLoad_loads]
    rfl
  · rw [hequeues, htime.queues, hdec.queues, hqueues]
    rfl
  · rw [hepending, htime.pending, hdec.pending, hpending]
    rfl
  · rw [helog, htime.log, hdec.log, hlog]
    rfl

theorem finishLocked_spec (s : Scheduler p n) (env : Env) (d : Fin n) (response : Response) :
    ∃ s₁ s₂, Answered s d response s₁ ∧ s₂ = s₁.schedule env d ∧
      (s.entry response.key = none ∧ s.finishLocked env d response = (s₂, ⟨[], none, none⟩) ∨
        ∃ e, s.entry response.key = some e ∧ s.finishLocked env d response =
          (s₂.takeErrors.1, ⟨s₂.pendingErrorCallbacks,
            if s₁.taskDrained response.procId e.data.taskId then
              some (response.procId, e.data.taskId) else none,
            if e.state = .cancelled then none else some (response, d)⟩)) := by
  have hmap : ((s.record (.finishJobs d response)).dropLoad d).map = s.map :=
    (dropLoad_same (s.record (.finishJobs d response)) d).1
  have hentry : s.entry response.key =
      (s.map.find? response.procId).bind fun requests => requests.find? response.reqId := rfl
  cases hproc : s.map.find? response.procId with
  | none =>
    rw [hproc, Option.bind_none] at hentry
    refine ⟨_, _, dropLoad_answered hentry, rfl, Or.inl ⟨hentry, ?_⟩⟩
    simp only [finishLocked, hmap, hproc]
  | some requests =>
    rw [hproc, Option.bind_some] at hentry
    cases hreq : requests.find? response.reqId with
    | none =>
      have hnone := hentry.trans hreq
      refine ⟨_, _, (dropLoad_answered hnone).same (decLoadsProc_same _ response.procId), rfl,
        Or.inl ⟨hnone, ?_⟩⟩
      simp only [finishLocked, hmap, hproc, hreq]
    | some e =>
      refine ⟨_, _, erase_answered e.data.taskId, rfl, Or.inr ⟨e, hentry.trans hreq, ?_⟩⟩
      simp only [finishLocked, hmap, hproc, hreq]
      rfl

/-- The deferred errors as log entries, the last one made first. -/
def completions (deferred : List (Response × Fin n)) : List (Event n) :=
  (deferred.map fun cb => .onInferenceComplete cb.1 cb.2).reverse

/-- The end of a call: the errors deferred by `s` are delivered, then `extra`. -/
structure Flushed (s : Scheduler p n) (extra : List (Event n)) (t : Scheduler p n) : Prop where
  map : t.map = s.map
  loads : t.loads = s.loads
  queues : t.queues = s.queues
  pending : t.pendingErrorCallbacks = []
  log : t.log = extra ++ completions s.pendingErrorCallbacks ++ s.log

theorem Flushed.entry {extra : List (Event n)} (h : Flushed s extra t) (k : Key) :
    t.entry k = s.entry k := by rw [Scheduler.entry, Scheduler.entry, h.map]

theorem fireDeferred_eq : ∀ (deferred : List (Response × Fin n)) (s : Scheduler p n),
    s.fireDeferred deferred = { s with log := completions deferred ++ s.log }
  | [], s => rfl
  | cb :: deferred, s => by
    change (s.record (.onInferenceComplete cb.1 cb.2)).fireDeferred deferred = _
    rw [fireDeferred_eq deferred]
    simp [completions, record]

theorem addScheduler_spec (s : Scheduler p n) (env : Env) (r : Request) (d : Fin n) :
    ∃ s₁ s₂, Added s r d s₁ ∧
      (s.loads d < SCHED_THRE ∧ Schedules d s₁ s₂ ∨ SCHED_THRE ≤ s.loads d ∧ s₂ = s₁) ∧
      Flushed s₂ [] (s.addScheduler env r d) := by
  obtain ⟨s₁, s₂, hadded, hsched, heq⟩ := addLocked_spec s env r d
  refine ⟨s₁, s₂, hadded, hsched, ?_⟩
  rw [addScheduler, heq, fire, fireDeferred_eq]
  exact ⟨rfl, rfl, rfl, rfl, rfl⟩

/-- The events after the deferred errors: the drain notice, then the result. -/
def finishEvents (s₁ : Scheduler p n) (d : Fin n) (response : Response) (e : RequestEntry n) :
    List (Event n) :=
  (if e.state = .cancelled then [] else [.onInferenceComplete response d]) ++
    if s₁.taskDrained response.procId e.data.taskId then
      [.onTaskDrained response.procId e.data.taskId] else []

theorem finishJobs_spec (s : Scheduler p n) (env : Env) (d : Fin n) (response : Response) :
    ∃ s₁ s₂, Answered s d response s₁ ∧ s₂ = s₁.schedule env d ∧
      (s.entry response.key = none ∧ s.finishJobs env d response = s₂ ∨
        ∃ e, s.entry response.key = some e ∧
          Flushed s₂ (finishEvents s₁ d response e) (s.finishJobs env d response)) := by
  obtain ⟨s₁, s₂, hans, hsched, ⟨hnone, heq⟩ | ⟨e, he, heq⟩⟩ := finishLocked_spec s env d response
  · refine ⟨s₁, s₂, hans, hsched, Or.inl ⟨hnone, ?_⟩⟩
    rw [finishJobs, heq]
    rfl
  · refine ⟨s₁, s₂, hans, hsched, Or.inr ⟨e, he, ?_⟩⟩
    rw [finishJobs, heq, fire, fireDeferred_eq, finishEvents]
    by_cases hc : e.state = .cancelled <;> by_cases hd : s₁.taskDrained response.procId e.data.taskId
    all_goals
      simp only [hc, hd, if_true, if_false]
      exact ⟨rfl, rfl, rfl, rfl, rfl⟩

/-! ### The stop functions -/

/-- A pass over the requests of one process as seen through `entry`. -/
theorem entry_pass {pid : ℤ} {requests : SortedMap ℤ (RequestEntry n)}
    {f : RequestEntry n → Option (RequestEntry n)} (hfind : s.map.find? pid = some requests)
    (hmap : ∀ pid', t.map.find? pid' =
      if pid' = pid then some (requests.filterMapVal f) else s.map.find? pid') (k : Key) :
    t.entry k = if k.1 = pid then (s.entry k).bind f else s.entry k := by
  simp only [entry, hmap]
  split_ifs with hk
  · rw [Option.bind_some, SortedMap.find?_filterMapVal, hk, hfind, Option.bind_some]
  · rfl

/-- What the stop functions do: a running request is cancelled, a pending one removed, and the log
    names the requests concerned. -/
structure Stopped (s t : Scheduler p n) : Prop where
  entry : ∀ k, t.entry k = s.entry k ∨ ∃ e, s.entry k = some e ∧
    (e.state = .running ∧ t.entry k = some { e with state := .cancelled } ∨
      e.state = .pending ∧ t.entry k = none)
  loads : t.loads = s.loads
  queues : t.queues = s.queues
  pending : t.pendingErrorCallbacks = s.pendingErrorCallbacks
  log : ∃ ks : List Key, t.log = ks.map .stopped ++ s.log ∧ ∀ k, k ∈ ks ↔ t.entry k ≠ s.entry k

theorem Stopped.refl (s : Scheduler p n) : Stopped s s :=
  ⟨fun _ => Or.inl rfl, rfl, rfl, rfl, [], rfl, by simp⟩

/-- One request in a pass: left alone, or touched in one of the two ways. -/
def StopsBy (f : RequestEntry n → Option (RequestEntry n)) (touched : RequestEntry n → Bool) :
    Prop :=
  ∀ e, touched e = false ∧ f e = some e ∨ touched e = true ∧
    (e.state = .running ∧ f e = some { e with state := .cancelled } ∨
      e.state = .pending ∧ f e = none)

theorem stopped_of_pass {pid : ℤ} {requests : SortedMap ℤ (RequestEntry n)}
    {f : RequestEntry n → Option (RequestEntry n)} {touched : RequestEntry n → Bool}
    (hf : StopsBy f touched) (hfind : s.map.find? pid = some requests)
    (hentry : ∀ k : Key, t.entry k = if k.1 = pid then (s.entry k).bind f else s.entry k)
    (hloads : t.loads = s.loads) (hqueues : t.queues = s.queues)
    (hpending : t.pendingErrorCallbacks = s.pendingErrorCallbacks)
    (hlog : t.log = (requests.entries.filter fun kv => touched kv.2).map
      (fun kv => .stopped (pid, kv.1)) ++ s.log) : Stopped s t := by
  have hown : ∀ k : Key, k.1 = pid → s.entry k = requests.find? k.2 := by
    intro k hk
    rw [entry, hk, hfind, Option.bind_some]
  -- `touched` marks exactly the requests whose entry changes
  have hchange : ∀ (k : Key) e, k.1 = pid → s.entry k = some e →
      (touched e = true ↔ t.entry k ≠ s.entry k) := by
    intro k e hk he
    rw [hentry k, if_pos hk, he, Option.bind_some]
    rcases hf e with ⟨hno, hkeep⟩ | ⟨hyes, ⟨hst, hnew⟩ | ⟨hst, hnew⟩⟩
    · simp [hno, hkeep]
    · have hne : ({ e with state := .cancelled } : RequestEntry n) ≠ e := fun heq => by
        have := congrArg RequestEntry.state heq
        rw [hst] at this
        cases this
      simp [hyes, hnew, hne]
    · simp [hyes, hnew]
  refine ⟨fun k => ?_, hloads, hqueues, hpending,
    (requests.entries.filter fun kv => touched kv.2).map (fun kv => (pid, kv.1)), ?_, fun k => ?_⟩
  · rw [hentry k]
    by_cases hk : k.1 = pid
    · rw [if_pos hk]
      cases he : s.entry k with
      | none => exact Or.inl rfl
      | some e =>
        rw [Option.bind_some]
        rcases hf e with ⟨_, hkeep⟩ | ⟨_, ⟨hst, hnew⟩ | ⟨hst, hnew⟩⟩
        · exact Or.inl hkeep
        · exact Or.inr ⟨e, rfl, Or.inl ⟨hst, hnew⟩⟩
        · exact Or.inr ⟨e, rfl, Or.inr ⟨hst, hnew⟩⟩
    · exact Or.inl (if_neg hk)
  · rw [hlog, List.map_map]
    rfl
  · simp only [List.mem_map, List.mem_filter]
    constructor
    · rintro ⟨⟨req, e⟩, ⟨hmem, ht⟩, rfl⟩
      have he : s.entry (pid, req) = some e :=
        (hown _ rfl).trans ((requests.find?_eq_some _ _).mpr hmem)
      exact (hchange (pid, req) e rfl he).mp ht
    · intro hne
      have hk : k.1 = pid := by
        by_contra hk
        exact hne (by rw [hentry k, if_neg hk])
      cases he : s.entry k with
      | none => rw [hentry k, if_pos hk, he] at hne; exact absurd rfl hne
      | some e =>
        have hmem := (requests.find?_eq_some _ _).mp ((hown k hk).symm.trans he)
        exact ⟨(k.2, e), ⟨hmem, (hchange k e hk he).mpr hne⟩, by rw [← hk]⟩

theorem foldl_decLoadsProc_same {α : Type*} (pid : ℤ) : ∀ (l : List α) (s : Scheduler p n),
    SameViews s (l.foldl (fun s _ => s.decLoadsProc pid) s)
  | [], _ => ⟨rfl, rfl, rfl, rfl, rfl⟩
  | _ :: l, s => (decLoadsProc_same s pid).trans (foldl_decLoadsProc_same pid l _)

theorem stopsBy_sel (sel : RequestEntry n → Bool) :
    StopsBy (fun e => if sel e then stopEntry e else some e)
      (fun e => sel e && decide (e.state ≠ .cancelled)) := by
  intro e
  by_cases hsel : sel e = true
  · cases hst : e.state with
    | pending => simp [hsel, stopEntry, hst]
    | running => simp [hsel, stopEntry, hst]
    | cancelled => simp [hsel, stopEntry, hst]
  · simp [hsel]

theorem stopSelected_views (s : Scheduler p n) (pid : ℤ) (sel : RequestEntry n → Bool)
    (requests : SortedMap ℤ (RequestEntry n)) :
    (s.stopSelected pid sel requests).map =
        s.map.insert pid (requests.filterMapVal fun e => if sel e then stopEntry e else some e) ∧
      (s.stopSelected pid sel requests).loads = s.loads ∧
      (s.stopSelected pid sel requests).queues = s.queues ∧
      (s.stopSelected pid sel requests).pendingErrorCallbacks = s.pendingErrorCallbacks ∧
      (s.stopSelected pid sel requests).log =
        (requests.entries.filter fun kv => sel kv.2 && decide (kv.2.state ≠ .cancelled)).map
          (fun kv => .stopped (pid, kv.1)) ++ s.log := by
  have hsame := foldl_decLoadsProc_same pid ((requests.entries.filter fun kv =>
    sel kv.2 && decide (kv.2.state ≠ .cancelled)).filter fun kv =>
      decide (kv.2.state = .pending)) s
  refine ⟨?_, hsame.loads, hsame.queues, hsame.pending, ?_⟩
  · rw [stopSelected, hsame.map]
  · rw [stopSelected, hsame.log]

theorem entry_stopSelected {pid : ℤ} {requests : SortedMap ℤ (RequestEntry n)}
    (hfind : s.map.find? pid = some requests) (sel : RequestEntry n → Bool) (k : Key) :
    (s.stopSelected pid sel requests).entry k = if k.1 = pid then (s.entry k).bind fun e =>
      if sel e then stopEntry e else some e else s.entry k := by
  obtain ⟨hmap, _⟩ := stopSelected_views s pid sel requests
  exact entry_pass hfind (fun pid' => by rw [hmap, SortedMap.find?_insert]) k

theorem entry_of_absent {pid : ℤ} (hfind : s.map.find? pid = none)
    (f : RequestEntry n → Option (RequestEntry n)) (k : Key) :
    s.entry k = if k.1 = pid then (s.entry k).bind f else s.entry k := by
  split_ifs with hk
  · simp [entry, hk, hfind]
  · rfl

theorem entry_stopTaskInference (s : Scheduler p n) (pid : ℤ) (d : Fin n) (taskId : ℤ) (k : Key) :
    (s.stopTaskInference pid d taskId).entry k = if k.1 = pid then (s.entry k).bind fun e =>
      if decide (e.data.taskId = taskId) then stopEntry e else some e else s.entry k := by
  rw [stopTaskInference]
  cases hfind : s.map.find? pid with
  | none => exact entry_of_absent hfind _ k
  | some requests => exact entry_stopSelected hfind _ k

theorem stopTaskInference_stopped (s : Scheduler p n) (pid : ℤ) (d : Fin n) (taskId : ℤ) :
    Stopped s (s.stopTaskInference pid d taskId) := by
  have hentry := entry_stopTaskInference s pid d taskId
  rw [stopTaskInference] at hentry ⊢
  cases hfind : s.map.find? pid with
  | none => exact Stopped.refl s
  | some requests =>
    obtain ⟨_, hloads, hqueues, hpending, hlog⟩ :=
      stopSelected_views s pid (fun e => decide (e.data.taskId = taskId)) requests
    rw [hfind] at hentry
    exact stopped_of_pass (stopsBy_sel _) hfind hentry hloads hqueues hpending hlog

/-- Removing a process that has no request left changes no entry. -/
theorem entry_erase_empty {pid : ℤ} {left : SortedMap ℤ (RequestEntry n)}
    (hfind : s.map.find? pid = some left) (hempty : left.isEmpty = true) (k : Key) :
    ({ s with map := s.map.erase pid } : Scheduler p n).entry k = s.entry k := by
  simp only [entry, SortedMap.find?_erase]
  split_ifs with hk
  · rw [hk, hfind, Option.bind_some, (SortedMap.isEmpty_iff left).mp hempty]
    rfl
  · rfl

/-- `StopAllInferenceForProcess` is the pass over all requests, up to an empty map entry. -/
theorem stopAll_views {pid : ℤ} {requests : SortedMap ℤ (RequestEntry n)}
    (hfind : s.map.find? pid = some requests) (d : Fin n) :
    let u := s.stopSelected pid (fun _ => true) requests
    let t := s.stopAllInferenceForProcess pid d
    (∀ k, t.entry k = u.entry k) ∧ t.loads = u.loads ∧ t.queues = u.queues ∧
      t.pendingErrorCallbacks = u.pendingErrorCallbacks ∧ t.log = u.log := by
  intro u t
  cases hleft : u.map.find? pid with
  | none =>
    have ht : t = u := by
      simp only [u, t, stopAllInferenceForProcess, hfind] at hleft ⊢
      rw [hleft]
    rw [ht]
    exact ⟨fun _ => rfl, rfl, rfl, rfl, rfl⟩
  | some left =>
    have ht : t = if left.isEmpty then { u with map := u.map.erase pid } else u := by
      simp only [u, t, stopAllInferenceForProcess, hfind] at hleft ⊢
      rw [hleft]
    rw [ht]
    split_ifs with hempty
    · exact ⟨entry_erase_empty hleft hempty, rfl, rfl, rfl, rfl⟩
    · exact ⟨fun _ => rfl, rfl, rfl, rfl, rfl⟩

theorem entry_stopAll (s : Scheduler p n) (pid : ℤ) (d : Fin n) (k : Key) :
    (s.stopAllInferenceForProcess pid d).entry k =
      if k.1 = pid then (s.entry k).bind stopEntry else s.entry k := by
  cases hfind : s.map.find? pid with
  | none =>
    simp only [stopAllInferenceForProcess, hfind]
    exact entry_of_absent hfind _ k
  | some requests =>
    rw [(stopAll_views hfind d).1 k]
    exact entry_stopSelected hfind _ k

theorem stopAll_stopped (s : Scheduler p n) (pid : ℤ) (d : Fin n) :
    Stopped s (s.stopAllInferenceForProcess pid d) := by
  cases hfind : s.map.find? pid with
  | none =>
    simp only [stopAllInferenceForProcess, hfind]
    exact Stopped.refl s
  | some requests =>
    obtain ⟨_, hloads, hqueues, hpending, hlog⟩ := stopAll_views hfind d
    obtain ⟨_, hloads', hqueues', hpending', hlog'⟩ :=
      stopSelected_views s pid (fun _ => true) requests
    exact stopped_of_pass (stopsBy_sel fun _ => true) hfind (entry_stopAll s pid d)
      (hloads.trans hloads') (hqueues.trans hqueues') (hpending.trans hpending')
      (hlog.trans hlog')

theorem stopsBy_clear (d : Fin n) :
    StopsBy (fun e => some (if runningOn d e then { e with state := .cancelled } else e))
      (runningOn d) := by
  intro e
  by_cases hrun : runningOn d e = true
  · have hst : e.state = .running := (of_decide_eq_true hrun).1
    exact Or.inr ⟨hrun, Or.inl ⟨hst, congrArg some (if_pos hrun)⟩⟩
  · exact Or.inl ⟨Bool.eq_false_iff.mpr hrun, congrArg some (if_neg hrun)⟩

theorem entry_clearRunningRequests (s : Scheduler p n) (pid : ℤ) (d : Fin n) (k : Key) :
    (s.clearRunningRequests pid d).entry k = if k.1 = pid then (s.entry k).bind fun e =>
      some (if runningOn d e then { e with state := .cancelled } else e) else s.entry k := by
  rw [clearRunningRequests]
  cases hfind : s.map.find? pid with
  | none => exact entry_of_absent hfind _ k
  | some requests => exact entry_pass hfind (fun pid' => by rw [SortedMap.find?_insert]) k

theorem clearRunningRequests_stopped (s : Scheduler p n) (pid : ℤ) (d : Fin n) :
    Stopped s (s.clearRunningRequests pid d) := by
  have hentry := entry_clearRunningRequests s pid d
  rw [clearRunningRequests] at hentry ⊢
  cases hfind : s.map.find? pid with
  | none => exact Stopped.refl s
  | some requests =>
    rw [hfind] at hentry
    exact stopped_of_pass (stopsBy_clear d) hfind hentry rfl rfl rfl rfl

/-! ### All calls -/

/-- What any call does, guards included. -/
inductive Effect (s : Scheduler p n) : Op n → Scheduler p n → Prop where
  | added {env : Env} {r : Request} {d : Fin n} {s₁ s₂ t : Scheduler p n} (hadded : Added s r d s₁)
      (hsched : s.loads d < SCHED_THRE ∧ Schedules d s₁ s₂ ∨ SCHED_THRE ≤ s.loads d ∧ s₂ = s₁)
      (hflush : Flushed s₂ [] t) : Effect s (.addScheduler env r d) t
  | missed {env : Env} {d : Fin n} {response : Response} {s₁ t : Scheduler p n}
      (hentry : s.entry response.key = none) (hans : Answered s d response s₁)
      (hsched : Schedules d s₁ t) (ht : t = s₁.schedule env d) : Effect s (.finishJobs env d response) t
  | finished {env : Env} {d : Fin n} {response : Response} {e : RequestEntry n}
      {s₁ s₂ t : Scheduler p n} (hentry : s.entry response.key = some e)
      (hans : Answered s d response s₁) (hsched : Schedules d s₁ s₂)
      (hflush : Flushed s₂ (finishEvents s₁ d response e) t) : Effect s (.finishJobs env d response) t
  | stopped {op : Op n} {t : Scheduler p n} (hstop : Stopped s t) : Effect s op t

theorem exec_effect (s : Scheduler p n) (op : Op n) : Effect s op (s.exec op) := by
  cases op with
  | addScheduler env r d =>
    obtain ⟨s₁, s₂, hadded, hsched, hflush⟩ := addScheduler_spec s env r d
    exact .added hadded hsched hflush
  | finishJobs env d response =>
    obtain ⟨s₁, s₂, hans, rfl, ⟨hentry, heq⟩ | ⟨e, hentry, hflush⟩⟩ :=
      finishJobs_spec s env d response
    · rw [exec, heq]
      exact .missed hentry hans (schedule_schedules _ env d) rfl
    · exact .finished hentry hans (schedule_schedules _ env d) hflush
  | stopTaskInference pid d taskId => exact .stopped (stopTaskInference_stopped s pid d taskId)
  | stopAllInferenceForProcess pid d => exact .stopped (stopAll_stopped s pid d)
  | clearRunningRequests pid d => exact .stopped (clearRunningRequests_stopped s pid d)

end DxRt.Scheduler
