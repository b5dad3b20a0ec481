import DxRt.Scheduler.Completion
import DxRt.Scheduler.Progress

/-! lib/dxrt_service/schedule_service.cpp: `ClearAllLoad`.

    After a device recovery every load counter is set to zero, whatever is in the map and in the
    queues. From then on the counters count what has been submitted since: the part of the log after
    the last clear takes the place of the log. A response to an earlier submission would be taken off
    a counter that does not count it. -/

namespace DxRt.Scheduler
variable {p : Policy} {n : ℕ} {s t : Scheduler p n} {d : Fin n}

def clearAllLoad (s : Scheduler p n) : Scheduler p n :=
  { s with loads := fun _ => 0, loadsProc := .empty }

/-- No request is RUNNING. -/
def noneRunning (s : Scheduler p n) : Bool :=
  s.map.entries.all fun requests =>
    requests.2.entries.all fun kv => decide (kv.2.state ≠ .running)

/-- The events after the first `cleared` ones. -/
def since (cleared : ℕ) (log : List (Event n)) : List (Event n) := log.take (log.length - cleared)

/-! ### Requests that a later event completes -/

/-- Every request that was added and not stopped is reported, or has a report deferred, or is counted
    by its device, or is queued on a device whose next event calls `schedule`: a new request finds
    room, or the response of a submission made since the last clear is due. -/
structure Completable (cleared : ℕ) (s : Scheduler p n) : Prop where
  gone : ∀ k, wasAdded k s.log = true → s.entry k = none →
    wasStopped k s.log = true ∨ 0 < completed k s.log ∨ ∃ cb ∈ s.pendingErrorCallbacks, cb.1.key = k
  cancelled : ∀ k e, s.entry k = some e → e.state = .cancelled → wasStopped k s.log = true
  running : ∀ k e, s.entry k = some e → e.state = .running → ∃ d, e.deviceId = some d
  counted : ∀ d (ks : Finset Key), (∀ k ∈ ks, ∃ e, s.entry k = some e ∧ e.state = .running ∧
    e.deviceId = some d) → (ks.card : ℤ) ≤ s.loads d
  pending : ∀ k e, s.entry k = some e → e.state = .pending →
    ∃ d, k ∈ s.queued d ∧ (s.loads d < SCHED_THRE ∨ outstanding d (since cleared s.log) ≠ 0)

/-- A response is the answer to a submission that is counted, or the counter is zero anyway. -/
def AnswersCounted (cleared : ℕ) (s : Scheduler p n) : Op n → Prop
  | .finishJobs _ d response =>
    response.key ∈ outstanding d (since cleared s.log) ∨ s.loads d = 0
  | _ => True

instance (cleared : ℕ) (s : Scheduler p n) : ∀ op, Decidable (AnswersCounted cleared s op)
  | .finishJobs .. => inferInstanceAs (Decidable (_ ∨ _))
  | .addScheduler .. | .stopTaskInference .. | .stopAllInferenceForProcess ..
  | .clearRunningRequests .. => isTrue trivial

theorem noneRunning_iff : s.noneRunning = true ↔
    ∀ k e, s.entry k = some e → e.state ≠ .running := by
  rw [noneRunning, List.all_eq_true]
  constructor
  · intro h k e he
    obtain ⟨requests, hproc, hreq⟩ := Option.bind_eq_some_iff.mp he
    have hall := h _ ((SortedMap.find?_eq_some _ _ _).mp hproc)
    exact of_decide_eq_true (List.all_eq_true.mp hall _ ((SortedMap.find?_eq_some _ _ _).mp hreq))
  · intro h ⟨pid, requests⟩ hproc
    refine List.all_eq_true.mpr fun ⟨reqId, e⟩ hreq => decide_eq_true ?_
    refine h (pid, reqId) e ?_
    rw [entry, (SortedMap.find?_eq_some _ _ _).mpr hproc, Option.bind_some]
    exact (SortedMap.find?_eq_some _ _ _).mpr hreq

theorem since_append {cleared : ℕ} {log : List (Event n)} (hle : cleared ≤ log.length)
    (l : List (Event n)) : since cleared (l ++ log) = l ++ since cleared log := by
  have hlen : (l ++ log).length - cleared = l.length + (log.length - cleared) := by
    rw [List.length_append]
    omega
  rw [since, since, hlen, List.take_length_add_append]

/-! ### The counters -/

/-- The counters count the submissions that `recent` knows, and those of the requests that are
    RUNNING are among them. -/
structure Tally (recent : List (Event n)) (s : Scheduler p n) : Prop where
  loads : ∀ d, s.loads d = (outstanding d recent).card
  running : ∀ k e, s.entry k = some e → e.state = .running →
    ∃ d, e.deviceId = some d ∧ k ∈ outstanding d recent

theorem Tally.rejected {recent : List (Event n)} {k : Key} {status : ℤ} (h : Tally recent s)
    (ht : Rejected s d k status t) : Tally (.rejected d k status :: recent) t where
  loads d' := by rw [ht.loads]; exact h.loads d'
  running k' e he hst := by
    rw [ht.entry] at he
    split_ifs at he
    exact h.running k' e he hst

theorem Tally.submitted {recent : List (Event n)} {k : Key} {e : RequestEntry n} {retval : Retval}
    (h : Tally recent s) (ht : Submitted s d k e retval t) :
    Tally (.inferenceRequest d k e.data.taskId e.state retval :: recent) t := by
  have hout : ∀ d', outstanding d' (.inferenceRequest d k e.data.taskId e.state retval :: recent) =
      if d' = d ∧ retval = .ok then k ::ₘ outstanding d' recent else outstanding d' recent := by
    intro d'
    cases retval with
    | ok => simp only [outstanding, and_true, eq_comm]
    | ebusy | eagain => simp [outstanding]
  refine ⟨fun d' => ?_, fun k' e' he' hst => ?_⟩
  · rw [ht.loads, hout, h.loads d']
    split_ifs
    · rw [Multiset.card_cons]
      push_cast
      rfl
    · rw [add_zero]
  · rw [ht.entry] at he'
    split_ifs at he' with hk hret
    · cases he'
      refine ⟨d, rfl, ?_⟩
      rw [hout, if_pos ⟨rfl, hret⟩, hk]
      exact Multiset.mem_cons_self _ _
    · cases he'
      cases hst
    · obtain ⟨d', hd', hmem⟩ := h.running k' e' he' hst
      refine ⟨d', hd', ?_⟩
      rw [hout]
      split_ifs
      · exact Multiset.mem_cons_of_mem hmem
      · exact hmem

theorem Schedules.tally {recent : List (Event n)} (h : Schedules d s t) (hs : Tally recent s) :
    ∃ l, t.log = l ++ s.log ∧ Tally (l ++ recent) t := by
  induction h generalizing recent with
  | idle => exact ⟨[], rfl, hs⟩
  | skip _ _ _ ih => exact ih ⟨hs.loads, hs.running⟩
  | @reject s s' t k q e status _ _ _ hs' _ ih =>
    have hq : Tally recent (s.setQueue d q) := ⟨hs.loads, hs.running⟩
    obtain ⟨l, hl, ht⟩ := ih (hq.rejected hs')
    refine ⟨l ++ [.rejected d k status], by rw [hl, hs'.log, List.append_assoc]; rfl, ?_⟩
    rw [List.append_assoc]
    exact ht
  | @submit s t k q e retval _ _ ht =>
    have hq : Tally recent (s.setQueue d q) := ⟨hs.loads, hs.running⟩
    exact ⟨[_], ht.log, hq.submitted ht⟩

theorem Tally.added {recent : List (Event n)} {r : Request} (h : Tally recent s)
    (ht : Added s r d t) : Tally (.addScheduler d r :: recent) t where
  loads d' := by rw [ht.loads]; exact h.loads d'
  running k e he hst := by
    rw [ht.entry] at he
    split_ifs at he
    · cases he
      cases hst
    · exact h.running k e he hst

/-- A counted submission is taken off the counter; any other response finds the counter at zero. -/
theorem Tally.answered {recent : List (Event n)} {response : Response} (h : Tally recent s)
    (hans : Answered s d response t)
    (hok : response.key ∈ outstanding d recent ∨ s.loads d = 0) :
    Tally (.finishJobs d response :: recent) t := by
  refine ⟨fun d' => ?_, fun k e he hst => ?_⟩
  · rw [hans.loads, outstanding]
    by_cases hd : d = d'
    · subst hd
      rw [if_pos rfl]
      have hload := h.loads d
      by_cases hmem : response.key ∈ outstanding d recent
      · have hcard := Multiset.card_erase_add_one hmem
        rw [if_pos ⟨rfl, by omega⟩]
        omega
      · have hzero := hok.resolve_left hmem
        rw [if_neg fun hc => by omega, Multiset.erase_of_notMem hmem]
        exact hload
    · rw [if_neg hd, if_neg fun hc => hd hc.1.symm]
      exact h.loads d'
  · rw [hans.entry] at he
    split_ifs at he with hk
    obtain ⟨d', hd', hmem⟩ := h.running k e he hst
    refine ⟨d', hd', ?_⟩
    rw [outstanding]
    split_ifs
    · exact (Multiset.mem_erase_of_ne hk).mpr hmem
    · exact hmem

theorem Tally.neutral {recent l : List (Event n)} (h : Tally recent s)
    (hl : ∀ ev ∈ l, Neutral ev) (hloads : t.loads = s.loads)
    (hentry : ∀ k e, t.entry k = some e → e.state = .running → s.entry k = some e) :
    Tally (l ++ recent) t where
  loads d := by rw [hloads, outstanding_neutral _ hl]; exact h.loads d
  running k e he hst := by
    obtain ⟨d, hd, hmem⟩ := h.running k e (hentry k e he hst) hst
    exact ⟨d, hd, by rw [outstanding_neutral _ hl]; exact hmem⟩

theorem Tally.flushed {recent extra : List (Event n)} (h : Tally recent s)
    (hf : Flushed s extra t) (hextra : ∀ ev ∈ extra, Neutral ev) :
    ∃ l, t.log = l ++ s.log ∧ Tally (l ++ recent) t := by
  obtain ⟨l, hlog, hl⟩ := hf.neutral hextra
  exact ⟨l, hlog, h.neutral hl hf.loads fun k e he _ => hf.entry k ▸ he⟩

theorem Tally.stopped {recent : List (Event n)} (h : Tally recent s) (hstop : Stopped s t) :
    ∃ l, t.log = l ++ s.log ∧ Tally (l ++ recent) t := by
  obtain ⟨l, hlog, hl⟩ := hstop.neutral
  refine ⟨l, hlog, h.neutral hl hstop.loads fun k e he hst => ?_⟩
  rcases hstop.entry k with hsame | ⟨e', _, ⟨_, hnew⟩ | ⟨_, hnew⟩⟩
  · exact hsame ▸ he
  · rw [hnew] at he
    cases he
    cases hst
  · rw [hnew] at he
    cases he

/-- What one call adds to the log keeps the count. -/
theorem Tally.exec {recent : List (Event n)} (h : Tally recent s) (op : Op n)
    (hok : ∀ env d response, op = .finishJobs env d response →
      response.key ∈ outstanding d recent ∨ s.loads d = 0) :
    ∃ l, (s.exec op).log = l ++ s.log ∧ Tally (l ++ recent) (s.exec op) := by
  cases exec_effect s op with
  | @added env r d s₁ s₂ _ hadded hsched hflush =>
    have h₁ := h.added hadded
    obtain ⟨l, hl, h₂⟩ : ∃ l, s₂.log = l ++ s₁.log ∧ Tally (l ++ .addScheduler d r :: recent) s₂ := by
      rcases hsched with ⟨_, hsched⟩ | ⟨_, rfl⟩
      · exact hsched.tally h₁
      · exact ⟨[], rfl, h₁⟩
    obtain ⟨l', hl', h₃⟩ := h₂.flushed hflush (by simp)
    refine ⟨l' ++ l ++ [.addScheduler d r], ?_, ?_⟩
    · rw [hl', hl, hadded.log]
      simp
    · simpa using h₃
  | @missed env d response s₁ _ _ hans hsched _ =>
    obtain ⟨l, hl, h₂⟩ := hsched.tally (h.answered hans (hok env d response rfl))
    refine ⟨l ++ [.finishJobs d response], ?_, ?_⟩
    · rw [hl, hans.log]
      simp
    · simpa using h₂
  | @finished env d response e s₁ s₂ _ _ hans hsched hflush =>
    obtain ⟨l, hl, h₂⟩ := hsched.tally (h.answered hans (hok env d response rfl))
    obtain ⟨l', hl', h₃⟩ := h₂.flushed hflush (neutral_finishEvents _ _ _ _)
    refine ⟨l' ++ l ++ [.finishJobs d response], ?_, ?_⟩
    · rw [hl', hl, hans.log]
      simp
    · simpa using h₃
  | stopped hstop => exact h.stopped hstop

/-! ### The queues -/

/-- Every request that is PENDING is in a queue. -/
def Waiting (s : Scheduler p n) : Prop :=
  ∀ k e, s.entry k = some e → e.state = .pending → ∃ d, k ∈ s.queued d

/-- Taking out a key whose request is not in the map, or leaves it. -/
theorem Waiting.popped {q : DeviceQueue p} {k : Key} (h : Waiting s)
    (hpop : s.queued d = k ::ₘ q.contents)
    (hqueued : ∀ d', t.queued d' = (s.setQueue d q).queued d')
    (hentry : ∀ k' e, t.entry k' = some e → k' ≠ k ∧ s.entry k' = some e) : Waiting t := by
  intro k' e he hst
  obtain ⟨hne, he⟩ := hentry k' e he
  obtain ⟨d', hmem⟩ := h k' e he hst
  exact ⟨d', by rw [hqueued]; exact (mem_queued_pop hpop hne d').mpr hmem⟩

theorem Waiting.submitted {q : DeviceQueue p} {k : Key} {e : RequestEntry n} {retval : Retval}
    (h : Waiting s) (hpop : s.queued d = k ::ₘ q.contents)
    (ht : Submitted (s.setQueue d q) d k e retval t) : Waiting t := by
  intro k' e' he' hst
  rw [ht.entry] at he'
  split_ifs at he' with hk hret
  · cases he'
    cases hst
  · -- a busy device: the request is queued again
    refine ⟨d, ?_⟩
    rw [ht.queued, if_pos ⟨rfl, hret⟩, hk]
    exact Multiset.mem_cons_self _ _
  · obtain ⟨d', hmem⟩ := h k' e' he' hst
    have hpopped := (mem_queued_pop hpop hk d').mpr hmem
    refine ⟨d', ?_⟩
    rw [ht.queued]
    split_ifs with hc
    · rw [hc.1] at hpopped
      exact Multiset.mem_cons_of_mem hpopped
    · exact hpopped

theorem Schedules.waiting (h : Schedules d s t) (hs : Waiting s) : Waiting t := by
  induction h with
  | idle => exact hs
  | skip hpop hnone _ ih =>
    refine ih (hs.popped hpop (fun _ => rfl) fun k' e he => ⟨?_, he⟩)
    rintro rfl
    cases hnone.symm.trans he
  | reject hpop _ _ hs' _ ih =>
    refine ih (hs.popped hpop (fun d' => by rw [queued, hs'.queues, queued]) fun k' e he => ?_)
    rw [hs'.entry] at he
    split_ifs at he with hk
    exact ⟨hk, he⟩
  | submit hpop _ ht => exact hs.submitted hpop ht

theorem Waiting.added {r : Request} (h : Waiting s) (ht : Added s r d t) : Waiting t := by
  intro k e he hst
  rw [ht.entry] at he
  split_ifs at he with hk
  · refine ⟨d, ?_⟩
    rw [ht.queued, if_pos rfl, hk]
    exact Multiset.mem_cons_self _ _
  · obtain ⟨d', hmem⟩ := h k e he hst
    refine ⟨d', ?_⟩
    rw [ht.queued]
    split_ifs with hd
    · exact Multiset.mem_cons_of_mem (hd ▸ hmem)
    · exact hmem

/-- Same queues, and no new request. -/
theorem Waiting.same (h : Waiting s) (hqueues : t.queues = s.queues)
    (hentry : ∀ k e, t.entry k = some e → e.state = .pending → s.entry k = some e) :
    Waiting t := by
  intro k e he hst
  obtain ⟨d, hmem⟩ := h k e (hentry k e he hst) hst
  exact ⟨d, by rw [queued, hqueues]; exact hmem⟩

theorem Waiting.answered {response : Response} (h : Waiting s) (hans : Answered s d response t) :
    Waiting t := by
  refine h.same hans.queues fun k e he _ => ?_
  rw [hans.entry] at he
  split_ifs at he
  exact he

theorem Waiting.exec (h : Waiting s) (op : Op n) : Waiting (s.exec op) := by
  cases exec_effect s op with
  | @added env r d s₁ s₂ _ hadded hsched hflush =>
    have h₂ : Waiting s₂ := by
      rcases hsched with ⟨_, hsched⟩ | ⟨_, rfl⟩
      · exact hsched.waiting (h.added hadded)
      · exact h.added hadded
    exact h₂.same hflush.queues fun k e he _ => hflush.entry k ▸ he
  | missed _ hans hsched _ => exact hsched.waiting (h.answered hans)
  | finished _ hans hsched hflush =>
    exact (hsched.waiting (h.answered hans)).same hflush.queues
      fun k e he _ => hflush.entry k ▸ he
  | stopped hstop =>
    refine h.same hstop.queues fun k e he hst => ?_
    rcases hstop.entry k with hsame | ⟨e', _, ⟨_, hnew⟩ | ⟨_, hnew⟩⟩
    · exact hsame ▸ he
    · rw [hnew] at he
      cases he
      cases hst
    · rw [hnew] at he
      cases he

/-! ### The reports -/

/-- A request that has left the map was stopped, or something is due for it; one that is cancelled
    was stopped. Unlike `CompleteInv` this does not depend on how keys are used. -/
structure Replied (extra : List (Response × Fin n)) (s : Scheduler p n) : Prop where
  gone : ∀ k, wasAdded k s.log = true → s.entry k = none →
    wasStopped k s.log = true ∨ due extra s k ≠ []
  cancelled : ∀ k e, s.entry k = some e → e.state = .cancelled → wasStopped k s.log = true

theorem Replied.rejected {extra : List (Response × Fin n)} {k : Key} {status : ℤ}
    (h : Replied extra s) (ht : Rejected s d k status t) : Replied extra t := by
  have hstopped : ∀ k', wasStopped k' t.log = wasStopped k' s.log := fun k' => by rw [ht.log]; rfl
  have hadded : ∀ k', wasAdded k' t.log = wasAdded k' s.log := fun k' => by rw [ht.log]; rfl
  refine ⟨fun k' hadd hnone => ?_, fun k' e he hst => ?_⟩
  · by_cases hk : k' = k
    · rw [hk, ht.due_self]
      exact Or.inr (by simp)
    · rw [ht.entry, if_neg hk] at hnone
      rw [hadded] at hadd
      rw [hstopped, ht.due_ne (Ne.symm hk)]
      exact h.gone k' hadd hnone
  · rw [ht.entry] at he
    split_ifs at he
    rw [hstopped]
    exact h.cancelled k' e he hst

theorem Replied.submitted {extra : List (Response × Fin n)} {k : Key} {e : RequestEntry n}
    {retval : Retval} (h : Replied extra s) (ht : Submitted s d k e retval t) :
    Replied extra t := by
  refine ⟨fun k' hadded hnone => ?_, fun k' e' he' hst => ?_⟩
  · rw [ht.entry] at hnone
    split_ifs at hnone
    rw [ht.due, ht.log]
    rw [ht.log] at hadded
    exact h.gone k' hadded hnone
  · rw [ht.entry] at he'
    rw [ht.log]
    split_ifs at he'
    · cases he'
      cases hst
    · cases he'
      cases hst
    · exact h.cancelled k' e' he' hst

theorem Schedules.replied {extra : List (Response × Fin n)} (h : Schedules d s t)
    (hs : Replied extra s) : Replied extra t := by
  induction h with
  | idle => exact hs
  | skip _ _ _ ih => exact ih ⟨hs.gone, hs.cancelled⟩
  | @reject s s' t k q e status _ _ _ hs' _ ih =>
    have hq : Replied extra (s.setQueue d q) := ⟨hs.gone, hs.cancelled⟩
    exact ih (hq.rejected hs')
  | @submit s t k q e retval _ _ ht =>
    have hq : Replied extra (s.setQueue d q) := ⟨hs.gone, hs.cancelled⟩
    exact hq.submitted ht

theorem Replied.added {r : Request} (h : Replied [] s) (ht : Added s r d t) : Replied [] t := by
  refine ⟨fun k hadded hnone => ?_, fun k e he hst => ?_⟩
  · rw [ht.entry] at hnone
    split_ifs at hnone with hk
    rw [ht.log, wasAdded, decide_eq_false (Ne.symm hk), Bool.false_or] at hadded
    rw [ht.due, if_neg (Ne.symm hk), ht.log, wasStopped, if_neg (Ne.symm hk)]
    exact h.gone k hadded hnone
  · rw [ht.entry] at he
    split_ifs at he with hk
    · cases he
      cases hst
    · rw [ht.log, wasStopped, if_neg (Ne.symm hk)]
      exact h.cancelled k e he hst

/-- The request that a response takes out of the map is owed its report. -/
theorem Replied.answered {response : Response} {e : RequestEntry n} (h : Replied [] s)
    (hentry : s.entry response.key = some e) (hans : Answered s d response t) :
    Replied (owed d response e) t := by
  refine ⟨fun k hadded hnone => ?_, fun k e' he' hst => ?_⟩
  · rw [hans.due, hans.log]
    rw [hans.log] at hadded
    by_cases hk : k = response.key
    · subst hk
      by_cases hc : e.state = .cancelled
      · exact Or.inl (h.cancelled _ e hentry hc)
      · rw [concerning_owed, owed, if_neg hc]
        exact Or.inr (List.cons_ne_nil _ _)
    · rw [hans.entry, if_neg hk] at hnone
      rw [concerning_owed_ne hk]
      exact h.gone k hadded hnone
  · rw [hans.entry] at he'
    split_ifs at he'
    rw [hans.log]
    exact h.cancelled k e' he' hst

theorem Replied.unanswered {response : Response} (h : Replied [] s)
    (hnone : s.entry response.key = none) (hans : Answered s d response t) : Replied [] t := by
  have hentry : ∀ k, t.entry k = s.entry k := by
    intro k
    rw [hans.entry]
    split_ifs with hk
    · rw [hk, hnone]
    · rfl
  have hdue : ∀ k, due [] t k = due [] s k := fun k => hans.due k
  refine ⟨fun k hadded hgone => ?_, fun k e he hst => ?_⟩
  · rw [hdue, hans.log]
    rw [hans.log] at hadded
    exact h.gone k hadded (hentry k ▸ hgone)
  · rw [hans.log]
    exact h.cancelled k e (hentry k ▸ he) hst

theorem Replied.flushed {owe : List (Response × Fin n)} {extra : List (Event n)}
    (h : Replied owe s) (hf : Flushed s extra t) (hcalls : ∀ ev ∈ extra, Callback ev)
    (hextra : ∀ k log, reports k (extra ++ log) = concerning k owe ++ reports k log) :
    Replied [] t where
  gone k hadded hnone := by
    rw [hf.due hextra, (hf.views hcalls k).2.1]
    rw [(hf.views hcalls k).2.2] at hadded
    exact h.gone k hadded (hf.entry k ▸ hnone)
  cancelled k e he hst := by
    rw [(hf.views hcalls k).2.1]
    exact h.cancelled k e (hf.entry k ▸ he) hst

theorem Replied.stopped (h : Replied [] s) (hstop : Stopped s t) : Replied [] t := by
  obtain ⟨ks, hlog, hks⟩ := hstop.log
  have hviews := fun k => stopped_views (k := k) s.log ks
  simp only [← hlog] at hviews
  have htouched : ∀ k, t.entry k ≠ s.entry k → wasStopped k t.log = true := fun k hne =>
    (hviews k).2.1.mpr (Or.inl ((hks k).mpr hne))
  refine ⟨fun k hadded hnone => ?_, fun k e he hst => ?_⟩
  · by_cases hsame : t.entry k = s.entry k
    · rw [hstop.due, (hviews k).2.1]
      rw [(hviews k).2.2] at hadded
      exact (h.gone k hadded (hsame ▸ hnone)).imp_left Or.inr
    · exact Or.inl (htouched k hsame)
  · by_cases hsame : t.entry k = s.entry k
    · exact (hviews k).2.1.mpr (Or.inr (h.cancelled k e (hsame ▸ he) hst))
    · exact htouched k hsame

theorem Replied.exec (h : Replied [] s) (op : Op n) : Replied [] (s.exec op) := by
  cases exec_effect s op with
  | @added env r d s₁ s₂ _ hadded hsched hflush =>
    have h₂ : Replied [] s₂ := by
      rcases hsched with ⟨_, hsched⟩ | ⟨_, rfl⟩
      · exact hsched.replied (h.added hadded)
      · exact h.added hadded
    exact h₂.flushed hflush (by simp) (fun _ _ => rfl)
  | missed hnone hans hsched _ => exact hsched.replied (h.unanswered hnone hans)
  | finished hentry hans hsched hflush =>
    exact (hsched.replied (h.answered hentry hans)).flushed hflush
      (callback_finishEvents _ _ _ _) (fun _ _ => reports_finishEvents _ _ _ _ _)
  | stopped hstop => exact h.stopped hstop

/-! ### Calls and clears -/

/-- What a run keeps whose counters were cleared when the log had `cleared` events. -/
structure ClearInv (cleared : ℕ) (s : Scheduler p n) : Prop where
  before : cleared ≤ s.log.length
  tally : Tally (since cleared s.log) s
  waiting : Waiting s
  replied : Replied [] s

theorem clearInv_init (p : Policy) (n : ℕ) : ClearInv 0 (init p n) := by
  have hno : ∀ {k e}, (init p n).entry k ≠ some e := fun {k} _ he => by
    cases (show (init p n).entry k = none from rfl) ▸ he
  exact ⟨Nat.zero_le _, ⟨fun _ => rfl, fun _ _ he => absurd he hno⟩, fun _ _ he => absurd he hno,
    ⟨nofun, fun _ _ he => absurd he hno⟩⟩

theorem ClearInv.exec {cleared : ℕ} (h : ClearInv cleared s) (op : Op n)
    (hok : AnswersCounted cleared s op) : ClearInv cleared (s.exec op) := by
  obtain ⟨l, hlog, htally⟩ := h.tally.exec op fun env d response heq => by
    subst heq
    exact hok
  refine ⟨?_, ?_, h.waiting.exec op, h.replied.exec op⟩
  · rw [hlog, List.length_append]
    exact Nat.le_add_left_of_le h.before
  · rwa [hlog, since_append h.before]

/-- The counters start again at zero: none of them may count a request that is RUNNING. -/
theorem ClearInv.clear {cleared : ℕ} (h : ClearInv cleared s) (hnone : s.noneRunning = true) :
    ClearInv s.log.length s.clearAllLoad where
  before := le_refl _
  tally := by
    refine ⟨fun d => ?_, fun k e he hst => absurd hst (noneRunning_iff.mp hnone k e he)⟩
    rw [since, clearAllLoad, Nat.sub_self]
    rfl
  waiting := h.waiting
  replied := ⟨h.replied.gone, h.replied.cancelled⟩

theorem ClearInv.completable {cleared : ℕ} (h : ClearInv cleared s) : Completable cleared s := by
  refine ⟨fun k hadded hnone => ?_, h.replied.cancelled, fun k e he hst => ?_,
    fun d ks hks => ?_, fun k e he hst => ?_⟩
  · refine (h.replied.gone k hadded hnone).imp_right fun hdue => ?_
    obtain ⟨cb, hcb⟩ := List.exists_mem_of_ne_nil _ hdue
    rcases List.mem_append.mp hcb with hcb | hcb
    · obtain ⟨hmem, hkey⟩ := List.mem_filter.mp (List.mem_reverse.mp hcb)
      exact Or.inr ⟨cb, hmem, of_decide_eq_true hkey⟩
    · exact Or.inl (List.length_pos_of_mem hcb)
  · obtain ⟨d, hd, _⟩ := h.tally.running k e he hst
    exact ⟨d, hd⟩
  · have hsub : ks.val ≤ outstanding d (since cleared s.log) := by
      refine (Multiset.le_iff_subset ks.nodup).mpr fun k hk => ?_
      obtain ⟨e, he, hst, hd⟩ := hks k hk
      obtain ⟨d', hd', hmem⟩ := h.tally.running k e he hst
      exact Option.some.inj (hd.symm.trans hd') ▸ hmem
    rw [h.tally.loads d]
    exact_mod_cast Multiset.card_le_card hsub
  · obtain ⟨d, hmem⟩ := h.waiting k e he hst
    refine ⟨d, hmem, ?_⟩
    by_cases hload : s.loads d < SCHED_THRE
    · exact Or.inl hload
    · -- a device without room has counted submissions
      refine Or.inr fun hzero => ?_
      have hcount := h.tally.loads d
      rw [hzero, Multiset.card_zero] at hcount
      simp only [SCHED_THRE] at hload
      omega

/-- A request that is RUNNING when the counters are cleared is no longer counted. -/
theorem not_completable_clear (h : s.noneRunning = false) (cleared : ℕ) :
    ¬ Completable cleared s.clearAllLoad := by
  intro hc
  refine Bool.eq_false_iff.mp h (noneRunning_iff.mpr fun k e he hst => ?_)
  obtain ⟨d, hd⟩ := hc.running k e he hst
  have hle := hc.counted d {k} fun k' hk' => by
    rw [Finset.mem_singleton.mp hk']
    exact ⟨e, he, hst, hd⟩
  simp [clearAllLoad] at hle

end DxRt.Scheduler
