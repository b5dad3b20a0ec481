import DxRt.Scheduler.Submission

/-! No stranded request.

    Nothing wakes the scheduler up but a new request or a response, and either submits at most one
    request. So whenever a queue is not empty, a submission must be outstanding on its device: its
    response will call `schedule` again. `schedule` stops only when a device was asked or the queue
    is empty, and a device that is busy has a submission outstanding (`Polite`). A pending request
    is in the queue of the device it was added for as long as no key is added while another
    device's queue still holds it. -/

namespace DxRt.Scheduler
variable {p : Policy} {n : ℕ} {s t : Scheduler p n} {d : Fin n}

/-- The device that `k` was last added for. -/
def addedOn (k : Key) : List (Event n) → Option (Fin n)
  | [] => none
  | .addScheduler d r :: log => if r.key = k then some d else addedOn k log
  | _ :: log => addedOn k log

/-- No device answers `-EBUSY` or `-EAGAIN` when no other submission is outstanding on it. -/
def Polite : List (Event n) → Prop
  | [] => True
  | .inferenceRequest d _ _ _ retval :: log => (retval ≠ .ok → outstanding d log ≠ 0) ∧ Polite log
  | _ :: log => Polite log

theorem addedOn_neutral {k : Key} : ∀ {l : List (Event n)} (log : List (Event n)),
    (∀ ev ∈ l, Neutral ev) → addedOn k (l ++ log) = addedOn k log
  | [], _, _ => rfl
  | ev :: l, log, h => by
    have hrest := addedOn_neutral (k := k) log fun x hx => h x (List.mem_cons_of_mem _ hx)
    cases ev with
    | addScheduler | inferenceRequest | finishJobs => exact absurd (h _ (List.mem_cons_self ..)) id
    | stopped | rejected | onInferenceComplete | onTaskDrained => exact hrest

theorem Polite.of_append : ∀ {l : List (Event n)} {log : List (Event n)},
    Polite (l ++ log) → Polite log
  | [], _, h => h
  | ev :: l, log, h => by
    cases ev with
    | inferenceRequest => exact Polite.of_append h.2
    | addScheduler | stopped | rejected | finishJobs | onInferenceComplete | onTaskDrained =>
      exact Polite.of_append (l := l) h

/-- Every queued key of a request in the map is in the queue of the request's device, and every
    pending request is queued. -/
structure Placed (s : Scheduler p n) : Prop where
  device : ∀ k e, s.entry k = some e → ∀ d, k ∈ s.queued d → addedOn k s.log = some d
  queued : ∀ k e, s.entry k = some e → e.state = .pending →
    ∃ d, addedOn k s.log = some d ∧ k ∈ s.queued d

/-- Load and queue of one device: a non-empty queue has a submission to wait for. -/
structure Driven (s : Scheduler p n) (d : Fin n) : Prop where
  load : s.loads d ≤ (outstanding d s.log).card
  busy : s.queued d ≠ 0 → outstanding d s.log ≠ 0

theorem mem_queued_pop {q : DeviceQueue p} {k k' : Key} (hpop : s.queued d = k ::ₘ q.contents)
    (hne : k' ≠ k) (d' : Fin n) : k' ∈ (s.setQueue d q).queued d' ↔ k' ∈ s.queued d' := by
  rw [queued_setQueue]
  split_ifs with hd
  · rw [hd, hpop, Multiset.mem_cons]
    exact ⟨Or.inr, fun h => h.resolve_left hne⟩
  · rfl

/-- Taking out a key whose request is not in the map, or leaves it. -/
theorem Placed.popped {q : DeviceQueue p} {k : Key} (h : Placed s)
    (hpop : s.queued d = k ::ₘ q.contents)
    (hqueued : ∀ d', t.queued d' = (s.setQueue d q).queued d')
    (hadded : ∀ k', addedOn k' t.log = addedOn k' s.log)
    (hentry : ∀ k' e, t.entry k' = some e → k' ≠ k ∧ s.entry k' = some e) : Placed t where
  device k' e he d' hmem := by
    obtain ⟨hne, he⟩ := hentry k' e he
    rw [hadded]
    exact h.device k' e he d' ((mem_queued_pop hpop hne d').mp (hqueued d' ▸ hmem))
  queued k' e he hst := by
    obtain ⟨hne, he⟩ := hentry k' e he
    obtain ⟨d', hd', hmem⟩ := h.queued k' e he hst
    refine ⟨d', (hadded k').trans hd', ?_⟩
    rw [hqueued]
    exact (mem_queued_pop hpop hne d').mpr hmem

theorem Placed.submitted {q : DeviceQueue p} {k : Key} {e : RequestEntry n} {retval : Retval}
    (h : Placed s) (hpop : s.queued d = k ::ₘ q.contents) (hentry : s.entry k = some e)
    (ht : Submitted (s.setQueue d q) d k e retval t) : Placed t := by
  have hmem : k ∈ s.queued d := hpop ▸ Multiset.mem_cons_self k _
  have hadded : ∀ k', addedOn k' t.log = addedOn k' s.log := fun k' => by rw [ht.log]; rfl
  have hsub : ∀ k' d', k' ∈ t.queued d' → k' ∈ s.queued d' := by
    intro k' d' hk'
    rw [ht.queued] at hk'
    split_ifs at hk' with hc
    · rw [queued_setQueue, if_pos rfl, ← hpop] at hk'
      exact hc.1 ▸ hk'
    · exact Multiset.mem_of_le (queued_pop_le hpop d') hk'
  have hkeep : ∀ k' d', k' ≠ k → k' ∈ s.queued d' → k' ∈ t.queued d' := by
    intro k' d' hne hk'
    have hpopped := (mem_queued_pop hpop hne d').mpr hk'
    rw [ht.queued]
    split_ifs with hc
    · rw [hc.1] at hpopped
      exact Multiset.mem_cons_of_mem hpopped
    · exact hpopped
  refine ⟨fun k' e' he' d' hk' => ?_, fun k' e' he' hst => ?_⟩
  · rw [hadded]
    by_cases hk : k' = k
    · rw [hk]
      exact h.device k e hentry d' (hsub k d' (hk ▸ hk'))
    · rw [ht.entry, if_neg hk] at he'
      exact h.device k' e' he' d' (hsub k' d' hk')
  · rw [hadded]
    by_cases hk : k' = k
    · subst hk
      -- only a busy device leaves the request pending, and then it is queued again
      rw [ht.entry, if_pos rfl] at he'
      split_ifs at he' with hret
      · cases he'
        cases hst
      · refine ⟨d, h.device k' e hentry d hmem, ?_⟩
        rw [ht.queued, if_pos ⟨rfl, hret⟩]
        exact Multiset.mem_cons_self _ _
    · rw [ht.entry, if_neg hk] at he'
      obtain ⟨d', hd', hin⟩ := h.queued k' e' he' hst
      exact ⟨d', hd', hkeep k' d' hk hin⟩

/-- `schedule` leaves the queue of its device empty or a submission outstanding, and it does not
    touch the other devices. -/
theorem Schedules.progress (h : Schedules d s t) (hs : Placed s)
    (hload : s.loads d ≤ (outstanding d s.log).card) (hpolite : Polite t.log)
    (hothers : ∀ d', d' ≠ d → Driven s d') : Placed t ∧ ∀ d', Driven t d' := by
  induction h with
  | @idle s hempty =>
    refine ⟨hs, fun d' => ?_⟩
    by_cases hd : d' = d
    · rw [hd]
      exact ⟨hload, fun hne => absurd hempty hne⟩
    · exact hothers d' hd
  | @skip s t k q hpop hnone hrest ih =>
    refine ih (hs.popped hpop (fun _ => rfl) (fun _ => rfl) fun k' e he => ⟨?_, he⟩) hload hpolite ?_
    · rintro rfl
      cases hnone.symm.trans he
    · intro d' hd
      refine ⟨(hothers d' hd).load, fun hne => (hothers d' hd).busy ?_⟩
      rwa [queued_setQueue, if_neg hd] at hne
  | @reject s s' t k q e status hpop hentry _ hs' hrest ih =>
    have hq : ∀ d', s'.queued d' = (s.setQueue d q).queued d' := fun d' => by
      rw [Scheduler.queued, hs'.queues, Scheduler.queued]
    have hadded : ∀ k', addedOn k' s'.log = addedOn k' s.log := fun k' => by rw [hs'.log]; rfl
    refine ih (hs.popped hpop hq hadded fun k' e he => ?_) ?_ hpolite ?_
    · rw [hs'.entry] at he
      split_ifs at he with hk
      exact ⟨hk, he⟩
    · rw [hs'.loads, hs'.log]
      exact hload
    · intro d' hd
      refine ⟨?_, fun hne => ?_⟩
      · rw [hs'.loads, hs'.log]
        exact (hothers d' hd).load
      · rw [hs'.log]
        rw [hq, queued_setQueue, if_neg hd] at hne
        exact (hothers d' hd).busy hne
  | @submit s t k q e retval hpop hentry ht =>
    refine ⟨hs.submitted hpop hentry ht, fun d' => ?_⟩
    have hout := ht.outstanding d'
    have hl := ht.loads d'
    by_cases hd : d' = d
    · subst hd
      by_cases hret : retval = .ok
      · rw [if_pos ⟨rfl, hret⟩] at hout hl
        refine ⟨?_, fun _ => by rw [hout]; exact Multiset.cons_ne_zero⟩
        rw [hout, hl, Multiset.card_cons]
        push_cast
        exact Int.add_le_add_right hload 1
      · rw [if_neg fun hc => hret hc.2] at hout hl
        rw [ht.log] at hpolite
        refine ⟨?_, fun _ => by rw [hout]; exact hpolite.1 hret⟩
        rw [hout, hl, add_zero]
        exact hload
    · rw [if_neg fun hc => hd hc.1] at hout hl
      refine ⟨?_, fun hne => ?_⟩
      · rw [hout, hl, add_zero]
        exact (hothers d' hd).load
      · rw [hout]
        rw [ht.queued, if_neg fun hc => hd hc.1, queued_setQueue, if_neg hd] at hne
        exact (hothers d' hd).busy hne

/-! ### Runs -/

/-- A key is added only when no other device's queue holds it. -/
def OneQueue (s : Scheduler p n) : Op n → Prop
  | .addScheduler _ r d => ∀ d', d' ≠ d → r.key ∉ s.queued d'
  | _ => True

structure ProgressInv (s : Scheduler p n) : Prop where
  placed : Placed s
  driven : ∀ d, Driven s d

theorem Placed.added {r : Request} (h : Placed s) (hone : ∀ d', d' ≠ d → r.key ∉ s.queued d')
    (ht : Added s r d t) : Placed t := by
  have hadded : ∀ k, addedOn k t.log = if r.key = k then some d else addedOn k s.log :=
    fun k => by rw [ht.log]; rfl
  refine ⟨fun k e he d' hmem => ?_, fun k e he hst => ?_⟩
  · rw [hadded]
    rw [ht.queued] at hmem
    by_cases hk : k = r.key
    · rw [if_pos hk.symm]
      by_cases hd : d' = d
      · rw [hd]
      · rw [if_neg hd, hk] at hmem
        exact absurd hmem (hone d' hd)
    · rw [if_neg (Ne.symm hk)]
      rw [ht.entry, if_neg hk] at he
      refine h.device k e he d' ?_
      split_ifs at hmem with hd
      · rw [hd]
        exact (Multiset.mem_cons.mp hmem).resolve_left hk
      · exact hmem
  · rw [hadded]
    by_cases hk : k = r.key
    · refine ⟨d, if_pos hk.symm, ?_⟩
      rw [ht.queued, if_pos rfl, hk]
      exact Multiset.mem_cons_self _ _
    · rw [ht.entry, if_neg hk] at he
      obtain ⟨d', hd', hmem⟩ := h.queued k e he hst
      refine ⟨d', by rw [if_neg (Ne.symm hk)]; exact hd', ?_⟩
      rw [ht.queued]
      split_ifs with hd
      · exact Multiset.mem_cons_of_mem (hd ▸ hmem)
      · exact hmem

/-- Same queues, and requests that stayed or were cancelled. -/
theorem Placed.same (h : Placed s) (hqueues : t.queues = s.queues)
    (hadded : ∀ k, addedOn k t.log = addedOn k s.log)
    (hentry : ∀ k e', t.entry k = some e' →
      ∃ e, s.entry k = some e ∧ (e'.state = .pending → e.state = .pending)) : Placed t where
  device k e' he' d hmem := by
    obtain ⟨e, he, _⟩ := hentry k e' he'
    rw [hadded]
    exact h.device k e he d (by rw [Scheduler.queued, ← hqueues]; exact hmem)
  queued k e' he' hst := by
    obtain ⟨e, he, hpending⟩ := hentry k e' he'
    obtain ⟨d, hd, hmem⟩ := h.queued k e he (hpending hst)
    exact ⟨d, by rw [hadded]; exact hd, by rw [Scheduler.queued, hqueues]; exact hmem⟩

theorem ProgressInv.neutral (h : ProgressInv s) (hqueues : t.queues = s.queues)
    (hloads : t.loads = s.loads) (hlog : ∃ l, t.log = l ++ s.log ∧ ∀ ev ∈ l, Neutral ev)
    (hentry : ∀ k e', t.entry k = some e' →
      ∃ e, s.entry k = some e ∧ (e'.state = .pending → e.state = .pending)) : ProgressInv t := by
  obtain ⟨l, hlog, hl⟩ := hlog
  refine ⟨h.placed.same hqueues (fun k => by rw [hlog, addedOn_neutral _ hl]) hentry,
    fun d => ⟨?_, fun hne => ?_⟩⟩
  · rw [hloads, hlog, outstanding_neutral _ hl]
    exact (h.driven d).load
  · rw [hlog, outstanding_neutral _ hl]
    rw [queued, hqueues] at hne
    exact (h.driven d).busy hne

theorem ProgressInv.flushed {extra : List (Event n)} (h : ProgressInv s) (hf : Flushed s extra t)
    (hextra : ∀ ev ∈ extra, Neutral ev) : ProgressInv t :=
  h.neutral hf.queues hf.loads (hf.neutral hextra) fun k e he => ⟨e, hf.entry k ▸ he, id⟩

/-- A response takes at most one submission away, and then `schedule` runs. -/
theorem ProgressInv.answered {response : Response} {s₁ : Scheduler p n} (h : ProgressInv s)
    (hans : Answered s d response s₁) (hsched : Schedules d s₁ t) (hpolite : Polite t.log) :
    ProgressInv t := by
  have hplaced : Placed s₁ := by
    refine h.placed.same hans.queues (fun k => by rw [hans.log]; rfl) fun k e he => ?_
    rw [hans.entry] at he
    split_ifs at he
    exact ⟨e, he, id⟩
  have hload : s₁.loads d ≤ (outstanding d s₁.log).card := by
    have hle := (h.driven d).load
    have hcard : (outstanding d s.log).card ≤ (outstanding d s₁.log).card + 1 := by
      rw [hans.log, outstanding, if_pos rfl]
      have herase := Multiset.card_erase_add_one (s := outstanding d s.log) (a := response.key)
      by_cases hmem : response.key ∈ outstanding d s.log
      · exact (herase hmem).ge
      · rw [Multiset.erase_of_notMem hmem]
        exact Nat.le_succ _
    rw [hans.loads]
    split_ifs with hpos
    · omega
    · have : s.loads d ≤ 0 := not_lt.mp fun hlt => hpos ⟨rfl, hlt⟩
      omega
  obtain ⟨hplaced', hdriven⟩ := hsched.progress hplaced hload hpolite fun d' hd => by
    refine ⟨?_, fun hne => ?_⟩
    · rw [hans.loads, if_neg fun hc => hd hc.1, hans.log, outstanding, if_neg (Ne.symm hd)]
      exact (h.driven d').load
    · rw [hans.log, outstanding, if_neg (Ne.symm hd)]
      rw [queued, hans.queues] at hne
      exact (h.driven d').busy hne
  exact ⟨hplaced', hdriven⟩

/-- A new request: `schedule` runs, or the device has its full load outstanding. -/
theorem ProgressInv.added {r : Request} {s₁ : Scheduler p n} (h : ProgressInv s)
    (hone : ∀ d', d' ≠ d → r.key ∉ s.queued d') (hadded : Added s r d s₁)
    (hsched : s.loads d < SCHED_THRE ∧ Schedules d s₁ t ∨ SCHED_THRE ≤ s.loads d ∧ t = s₁)
    (hpolite : Polite t.log) : ProgressInv t := by
  have hplaced := h.placed.added hone hadded
  have hout : ∀ d', outstanding d' s₁.log = outstanding d' s.log := fun d' => by
    rw [hadded.log]; rfl
  have hload : ∀ d', s₁.loads d' ≤ (outstanding d' s₁.log).card := fun d' => by
    rw [hadded.loads, hout]
    exact (h.driven d').load
  have hothers : ∀ d', d' ≠ d → Driven s₁ d' := fun d' hd => by
    refine ⟨hload d', fun hne => ?_⟩
    rw [hout]
    rw [hadded.queued, if_neg hd] at hne
    exact (h.driven d').busy hne
  rcases hsched with ⟨_, hsched⟩ | ⟨hfull, rfl⟩
  · obtain ⟨hplaced', hdriven⟩ := hsched.progress hplaced (hload d) hpolite hothers
    exact ⟨hplaced', hdriven⟩
  · refine ⟨hplaced, fun d' => ?_⟩
    by_cases hd : d' = d
    · subst hd
      refine ⟨hload d', fun _ hzero => ?_⟩
      have hle := (h.driven d').load
      rw [hout] at hzero
      rw [hzero, Multiset.card_zero] at hle
      simp only [SCHED_THRE] at hfull
      omega
    · exact hothers d' hd

theorem progressInv_step (s t : Scheduler p n) (hst : Step OneQueue s t)
    (h : Polite s.log → ProgressInv s) : Polite t.log → ProgressInv t := by
  intro hpolite
  obtain ⟨op, hop, rfl⟩ := hst
  cases exec_effect s op with
  | @added env r d s₁ s₂ _ hadded hsched hflush =>
    rw [hflush.log] at hpolite
    have hp₂ : Polite s₂.log := hpolite.of_append
    have hp₁ : Polite s₁.log := by
      rcases hsched with ⟨_, hsched⟩ | ⟨_, rfl⟩
      · obtain ⟨l, hl⟩ := hsched.log_suffix
        rw [hl] at hp₂
        exact hp₂.of_append
      · exact hp₂
    rw [hadded.log] at hp₁
    exact ((h hp₁).added hop hadded hsched hp₂).flushed hflush (by simp)
  | missed _ hans hsched _ =>
    obtain ⟨l, hl⟩ := hsched.log_suffix
    have hp₁ := hpolite
    rw [hl, hans.log] at hp₁
    exact (h hp₁.of_append).answered hans hsched hpolite
  | @finished env d response e s₁ s₂ _ _ hans hsched hflush =>
    rw [hflush.log] at hpolite
    have hp₂ : Polite s₂.log := hpolite.of_append
    obtain ⟨l, hl⟩ := hsched.log_suffix
    have hp₁ := hp₂
    rw [hl, hans.log] at hp₁
    exact ((h hp₁.of_append).answered hans hsched hp₂).flushed hflush (neutral_finishEvents _ _ _ _)
  | stopped hstop =>
    obtain ⟨l, hl, _⟩ := hstop.neutral
    rw [hl] at hpolite
    refine (h hpolite.of_append).neutral hstop.queues hstop.loads hstop.neutral fun k e' he' => ?_
    rcases hstop.entry k with hsame | ⟨e, he, ⟨_, hnew⟩ | ⟨_, hnew⟩⟩
    · exact ⟨e', hsame ▸ he', id⟩
    · rw [hnew] at he'
      cases he'
      exact ⟨e, he, nofun⟩
    · rw [hnew] at he'
      cases he'

theorem progressInv_init (p : Policy) (n : ℕ) : ProgressInv (init p n) := by
  have hno : ∀ {k e}, (init p n).entry k ≠ some e := fun {k} _ he => by
    cases (show (init p n).entry k = none from rfl) ▸ he
  refine ⟨⟨fun _ _ he => absurd he hno, fun _ _ he => absurd he hno⟩,
    fun d => ⟨le_refl _, fun hne => absurd ?_ hne⟩⟩
  exact DeviceQueue.contents_empty p

/-- With devices that are busy only while a submission is outstanding, and keys that are never
    added while another device's queue holds them: every pending request is queued on its device,
    and a device with a pending request queued has a submission outstanding. -/
theorem no_stranded_request {s : Scheduler p n}
    (hrun : Relation.ReflTransGen (Step OneQueue) (init p n) s) (hpolite : Polite s.log) :
    (∀ k e, s.entry k = some e → e.state = .pending →
      ∃ d, addedOn k s.log = some d ∧ k ∈ s.queued d) ∧
    ∀ d, (∃ k e, k ∈ s.queued d ∧ s.entry k = some e ∧ e.state = .pending) →
      outstanding d s.log ≠ 0 := by
  have h : ProgressInv s :=
    Run.invariant progressInv_step hrun (fun _ => progressInv_init p n) hpolite
  refine ⟨h.placed.queued, fun d ⟨k, e, hmem, _, _⟩ => (h.driven d).busy fun hzero => ?_⟩
  rw [hzero] at hmem
  exact Multiset.notMem_zero k hmem

instance (s : Scheduler p n) : ∀ op, Decidable (OneQueue s op)
  | .addScheduler _ r d => inferInstanceAs (Decidable (∀ d', d' ≠ d → r.key ∉ s.queued d'))
  | .finishJobs .. | .stopTaskInference .. | .stopAllInferenceForProcess ..
  | .clearRunningRequests .. => isTrue trivial

instance decidablePolite : ∀ log : List (Event n), Decidable (Polite log)
  | [] => isTrue trivial
  | .inferenceRequest d _ _ _ retval :: log =>
    have := decidablePolite log
    inferInstanceAs (Decidable ((retval ≠ .ok → outstanding d log ≠ 0) ∧ Polite log))
  | .addScheduler .. :: log | .finishJobs .. :: log | .stopped .. :: log | .rejected .. :: log
  | .onInferenceComplete .. :: log | .onTaskDrained .. :: log => decidablePolite log

/-- Shortest job first on one device: the second request waits for the first. -/
theorem no_stranded_request_waiting : ∃ s : Scheduler .sjf 1,
    Relation.ReflTransGen (Step OneQueue) (init .sjf 1) s ∧ Polite s.log ∧
      (1, 7) ∈ s.queued 0 ∧ outstanding 0 s.log ≠ 0 := by
  have hrun : Relation.ReflTransGen (Step OneQueue) (init .sjf 1) _ :=
    ((Relation.ReflTransGen.refl
      ).tail ⟨.addScheduler accepting ⟨2, 1, 0⟩ 0, by decide +kernel, rfl⟩
      ).tail ⟨.addScheduler busy ⟨1, 7, 0⟩ 0, by decide +kernel, rfl⟩
  refine ⟨_, hrun, by decide +kernel, by decide +kernel,
    (no_stranded_request hrun (by decide +kernel)).2 0 ?_⟩
  exact ⟨(1, 7), ⟨⟨1, 7, 0⟩, .pending, none⟩, by decide +kernel⟩

/-- Request 7 of process 1 is stopped while it waits for device 1, added again and run on device 0.
    The stale queue entry gives it to device 1, which is busy: it is pending again, on the queue of
    the wrong device. -/
theorem no_stranded_request_two_devices : ∃ s : Scheduler .fifo 2,
    Relation.ReflTransGen (Step Guarded) (init .fifo 2) s ∧ Polite s.log ∧
      s.entry (1, 7) = some ⟨⟨1, 7, 0⟩, .pending, none⟩ ∧ addedOn (1, 7) s.log = some 0 ∧
      (1, 7) ∉ s.queued 0 := by
  have hrun : Relation.ReflTransGen (Step Guarded) (init .fifo 2) _ :=
    (((((Relation.ReflTransGen.refl
      ).tail ⟨.addScheduler accepting ⟨2, 1, 0⟩ 1, by decide +kernel, rfl⟩
      ).tail ⟨.addScheduler busy ⟨1, 7, 0⟩ 1, by decide +kernel, rfl⟩
      ).tail ⟨.stopTaskInference 1 1 0, by decide +kernel, rfl⟩
      ).tail ⟨.addScheduler accepting ⟨1, 7, 0⟩ 0, by decide +kernel, rfl⟩
      ).tail ⟨.addScheduler busy ⟨3, 1, 0⟩ 1, by decide +kernel, rfl⟩
  exact ⟨_, hrun, by decide +kernel⟩

end DxRt.Scheduler
