import DxRt.Scheduler.Turns

/-! The order of the submissions in the FIFO scheduler.

    A request that the device has refused is pushed again, behind the requests that came after it. As
    long as the device refuses a request only when no other one waits, each device takes the requests
    in the order in which `AddScheduler` took them. -/

namespace DxRt.Scheduler
variable {n : ℕ} {d d' : Fin n} {k : Key} {s t : Scheduler .fifo n}

/-- The request that `AddScheduler` has taken for device `d`. -/
def addedKey (d : Fin n) : Event n → Option Key
  | .addScheduler d' r => if d' = d then some r.key else none
  | _ => none

/-- The request that device `d` has accepted. -/
def acceptedKey (d : Fin n) : Event n → Option Key
  | .inferenceRequest d' k _ _ .ok => if d' = d then some k else none
  | _ => none

/-- The requests for device `d`, in the order in which `AddScheduler` took them. -/
def added (d : Fin n) (log : List (Event n)) : List Key := (log.filterMap (addedKey d)).reverse

/-- The submissions that device `d` has accepted, in their order. -/
def submissions (d : Fin n) (log : List (Event n)) : List Key :=
  (log.filterMap (acceptedKey d)).reverse

/-- On each device the submissions occur in the order of `AddScheduler`. -/
def InOrder (s : Scheduler .fifo n) : Prop := ∀ d, (submissions d s.log).Sublist (added d s.log)

/-- The requests of a queue, the oldest one first. -/
def keys (q : DeviceQueue .fifo) : List Key := q

/-- `_device_queues[d]`. -/
def waiting (s : Scheduler .fifo n) (d : Fin n) : List Key := keys (s.queues d)

/-- If the device refuses a request, no other one is in the queue. -/
def refusesAlone : ℕ → Env → Fin n → Scheduler .fifo n → Bool
  | 0, _, _, _ => true
  | fuel + 1, env, d, s =>
    match (s.queues d).pop (env 0).tie with
    | (none, _) => true
    | (some k, q) =>
      match attempt (env 0) d k (s.setQueue d q) with
      | .goesOn s' => refusesAlone fuel (fun i => env (i + 1)) d s'
      | .sent _ => true
      | .putBack _ => (keys q).isEmpty

/-- No call meets a refusal while other requests wait for the device. -/
def NoOvertaking (s : Scheduler .fifo n) : Op n → Prop
  | .addScheduler env r d => s.loads d < SCHED_THRE →
    refusesAlone (((s.enqueue r d).queues d).contents.card + 1) env d (s.enqueue r d) = true
  | .finishJobs env d response =>
    refusesAlone (((s.answer d response).queues d).contents.card + 1) env d (s.answer d response) =
      true
  | .stopTaskInference .. | .stopAllInferenceForProcess .. | .clearRunningRequests .. => True

instance (s : Scheduler .fifo n) : ∀ op, Decidable (NoOvertaking s op)
  | .addScheduler .. => inferInstanceAs (Decidable (_ → _))
  | .finishJobs .. => inferInstanceAs (Decidable (_ = true))
  | .stopTaskInference .. | .stopAllInferenceForProcess .. | .clearRunningRequests .. =>
    inferInstanceAs (Decidable True)

/-- What has been submitted, and after it what waits, is in order. -/
def Ordered (s : Scheduler .fifo n) : Prop :=
  ∀ d, (submissions d s.log ++ s.waiting d).Sublist (added d s.log)

theorem added_cons (ev : Event n) (log : List (Event n)) :
    added d (ev :: log) = added d log ++ (addedKey d ev).toList := by
  rw [added, added, List.filterMap_cons]
  cases addedKey d ev <;> simp

theorem submissions_cons (ev : Event n) (log : List (Event n)) :
    submissions d (ev :: log) = submissions d log ++ (acceptedKey d ev).toList := by
  rw [submissions, submissions, List.filterMap_cons]
  cases acceptedKey d ev <;> simp

theorem Neutral.keys {ev : Event n} (h : Neutral ev) (d : Fin n) :
    addedKey d ev = none ∧ acceptedKey d ev = none := by
  cases ev with
  | addScheduler | inferenceRequest | finishJobs => exact absurd h id
  | stopped | rejected | onInferenceComplete | onTaskDrained => exact ⟨rfl, rfl⟩

theorem addedKey_request (d d' : Fin n) (k : Key) (taskId : ℤ) (state : RequestState)
    (retval : Retval) : addedKey d' (.inferenceRequest d k taskId state retval) = none := rfl

theorem acceptedKey_request (d d' : Fin n) (k : Key) (taskId : ℤ) (state : RequestState)
    (retval : Retval) : acceptedKey d' (.inferenceRequest d k taskId state retval) =
      if retval = .ok ∧ d = d' then some k else none := by
  cases retval <;> simp [acceptedKey]

/-- Callbacks are no steps of the queue. -/
theorem Ordered.onlyCalls (h : Ordered s) (hst : OnlyCalls s t) : Ordered t := by
  obtain ⟨hqueues, l, hlog, hl⟩ := hst
  intro d
  have hkeys : added d t.log = added d s.log ∧ submissions d t.log = submissions d s.log := by
    rw [hlog, added, added, submissions, submissions, List.filterMap_append, List.filterMap_append,
      List.filterMap_eq_nil_iff.mpr fun ev hev => ((hl ev hev).keys d).1,
      List.filterMap_eq_nil_iff.mpr fun ev hev => ((hl ev hev).keys d).2]
    exact ⟨rfl, rfl⟩
  rw [hkeys.1, hkeys.2, waiting, hqueues]
  exact h d

theorem waiting_update {q : DeviceQueue .fifo} (h : t.queues = Function.update s.queues d q)
    (d' : Fin n) : t.waiting d' = if d' = d then keys q else s.waiting d' := by
  by_cases hd : d' = d
  · have hq : t.queues d' = q := by rw [h, hd, Function.update_self]
    rw [waiting, hq, if_pos hd]
  · have hq : t.queues d' = s.queues d' := by rw [h, Function.update_of_ne hd]
    rw [waiting, hq, if_neg hd, waiting]

theorem keys_push (q : DeviceQueue .fifo) (k : Key) (time : ℕ) :
    keys (q.push k.1 k.2 time) = keys q ++ [k] := rfl

theorem keys_pop (q : DeviceQueue .fifo) (tie : ℕ) : q.pop tie = (none, q) ∨
    ∃ k q', q.pop tie = (some k, q') ∧ keys q = k :: keys q' :=
  match q with
  | ([] : List Key) => Or.inl rfl
  | (k :: rest : List Key) => Or.inr ⟨k, rest, rfl, rfl⟩

/-- A round takes the oldest request; it is accepted, dropped, or the only one. -/
theorem Ordered.scheduleUpTo (d : Fin n) : ∀ (fuel : ℕ) (env : Env) (s : Scheduler .fifo n),
    Ordered s → refusesAlone fuel env d s = true → Ordered (scheduleUpTo fuel env d s)
  | 0, _, _, h, _ => h
  | fuel + 1, env, s, h, halone => by
    rw [Scheduler.scheduleUpTo]
    rw [refusesAlone] at halone
    rcases keys_pop (s.queues d) (env 0).tie with hpop | ⟨k, q, hpop, hkeys⟩
    · have hsame : s.setQueue d (s.queues d) = s := by simp [setQueue]
      rw [hpop]
      dsimp only
      rw [hsame]
      exact h
    · rw [hpop] at halone ⊢
      dsimp only at halone ⊢
      rw [doInference_eq]
      have hattempt : Attempted (s.setQueue d q) d k (attempt (env 0) d k (s.setQueue d q)) :=
        attempt_attempted (env 0)
      generalize attempt (env 0) d k (s.setQueue d q) = outcome at hattempt halone ⊢
      -- In front of the queue stands the request that is tried.
      have hfront : s.waiting d = k :: keys q := hkeys
      cases hattempt with
      | @goesOn s' hcalls =>
        refine Ordered.scheduleUpTo d fuel _ s' (Ordered.onlyCalls (fun d' => ?_) hcalls) halone
        rw [waiting_update rfl]
        split_ifs with hd
        · subst hd
          refine List.Sublist.trans ?_ (h d')
          rw [hfront]
          exact (List.sublist_cons_self k _).append_left _
        · exact h d'
      | @sent s' taskId state hqueues hlog =>
        intro d'
        have hlog : s'.log = .inferenceRequest d k taskId state .ok :: s.log := hlog
        have hold := h d'
        dsimp only
        rw [hlog, waiting_update hqueues, submissions_cons, added_cons, acceptedKey_request,
          addedKey_request]
        by_cases hd : d' = d
        · rw [hd, hfront] at hold
          simpa [hd] using hold
        · simpa [hd, Ne.symm hd] using hold
      | @putBack s' taskId state retval time hqueues hretval hlog =>
        intro d'
        have hlog : s'.log = .inferenceRequest d k taskId state retval :: s.log := hlog
        have hpopped : (s.setQueue d q).queues d = q := Function.update_self _ _ _
        have hqueues : s'.queues = Function.update s.queues d (q.push k.1 k.2 time) := by
          rw [hqueues, hpopped, setQueue, Function.update_idem]
        have hold := h d'
        dsimp only at halone ⊢
        rw [hlog, waiting_update hqueues, submissions_cons, added_cons, acceptedKey_request,
          addedKey_request, keys_push, List.isEmpty_iff.mp halone]
        by_cases hd : d' = d
        · rw [hd, hfront, List.isEmpty_iff.mp halone] at hold
          simpa [hd, hretval] using hold
        · simpa [hd, hretval] using hold

/-- `AddScheduler` puts its request behind the others. -/
theorem Ordered.enqueue (h : Ordered s) (r : Request) (d : Fin n) : Ordered (s.enqueue r d) := by
  have hqueues : (s.enqueue r d).queues = Function.update s.queues d ((s.queues d).push
    r.key.1 r.key.2 (s.getTaskInferenceTime r.key.1 r.taskId)) := rfl
  have hlog : (s.enqueue r d).log = .addScheduler d r :: s.log := rfl
  intro d'
  have hold := h d'
  rw [hlog, waiting_update hqueues, submissions_cons, added_cons, keys_push]
  by_cases hd : d' = d
  · subst hd
    simpa [addedKey, acceptedKey, waiting] using hold.append_right [r.key]
  · simpa [addedKey, acceptedKey, hd, Ne.symm hd] using hold

theorem Ordered.answer (h : Ordered s) (d : Fin n) (response : Response) :
    Ordered (s.answer d response) := by
  have hans := answer_answered s d response
  intro d'
  have hold := h d'
  rw [hans.log, waiting, hans.queues, submissions_cons, added_cons]
  simpa [addedKey, acceptedKey, waiting] using hold

theorem ordered_step (s t : Scheduler .fifo n) (hst : Step NoOvertaking s t) (h : Ordered s) :
    Ordered t := by
  obtain ⟨op, hop, rfl⟩ := hst
  cases op with
  | addScheduler env r d =>
    refine Ordered.onlyCalls ?_ (addScheduler_onlyCalls s env r d)
    rw [accept]
    split_ifs with hload
    · exact (h.enqueue r d).scheduleUpTo d _ env _ (hop hload)
    · exact h.enqueue r d
  | finishJobs env d response =>
    refine Ordered.onlyCalls ?_ (finishJobs_onlyCalls s env d response)
    exact (h.answer d response).scheduleUpTo d _ env _ hop
  | stopTaskInference pid d taskId =>
    exact h.onlyCalls (stopped_onlyCalls (stopTaskInference_stopped s pid d taskId))
  | stopAllInferenceForProcess pid d =>
    exact h.onlyCalls (stopped_onlyCalls (stopAll_stopped s pid d))
  | clearRunningRequests pid d =>
    exact h.onlyCalls (stopped_onlyCalls (clearRunningRequests_stopped s pid d))

/-- In every run in which a device refuses a request only when no other one waits for it, each device
    accepts the requests in the order in which `AddScheduler` took them. -/
theorem fifo_order {s : Scheduler .fifo n}
    (hrun : Relation.ReflTransGen (Step NoOvertaking) (init .fifo n) s) : InOrder s := by
  have hordered : Ordered s := Run.invariant ordered_step hrun fun d => List.Sublist.refl _
  exact fun d => (List.sublist_append_left _ _).trans (hordered d)

/-- A busy device refuses the only request, and takes it later, before the next one. -/
theorem fifo_order_refused : ∃ s : Scheduler .fifo 1,
    Relation.ReflTransGen (Step NoOvertaking) (init .fifo 1) s ∧
      submissions 0 s.log = [(1, 1), (2, 1)] ∧ InOrder s := by
  have hrun := ((Relation.ReflTransGen.refl (r := Step NoOvertaking) (a := init .fifo 1)
      ).tail ⟨.addScheduler (fun _ => ⟨true, false, .ebusy, 0⟩) ⟨1, 1, 0⟩ 0, by decide +kernel, rfl⟩
      |>.tail ⟨.finishJobs accepting 0 ⟨3, 1, 0, 0⟩, by decide +kernel, rfl⟩
      |>.tail ⟨.addScheduler accepting ⟨2, 1, 0⟩ 0, by decide +kernel, rfl⟩)
  exact ⟨_, hrun, by decide +kernel, fifo_order hrun⟩

/-- A busy device refuses the first request when the second one waits: the second is accepted
    before the first. -/
theorem refused_overtaken : ¬ ∀ s : Scheduler .fifo 1,
    Relation.ReflTransGen (Step fun _ _ => True) (init .fifo 1) s → InOrder s := by
  intro hall
  have hrun := ((Relation.ReflTransGen.refl (r := Step fun _ _ => True) (a := init .fifo 1)
      ).tail ⟨.addScheduler (fun _ => ⟨true, false, .ebusy, 0⟩) ⟨1, 1, 0⟩ 0, trivial, rfl⟩
      |>.tail ⟨.addScheduler (fun _ => ⟨true, false, .ebusy, 0⟩) ⟨2, 1, 0⟩ 0, trivial, rfl⟩
      |>.tail ⟨.finishJobs accepting 0 ⟨3, 1, 0, 0⟩, trivial, rfl⟩
      |>.tail ⟨.finishJobs accepting 0 ⟨3, 1, 0, 0⟩, trivial, rfl⟩)
  exact absurd (hall _ hrun 0) (by decide +kernel)

end DxRt.Scheduler
