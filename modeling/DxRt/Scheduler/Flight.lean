import DxRt.Scheduler.Submission

/-! Submissions in flight.

    `inFlight` refines `outstanding` by the task of each submission. When keys are fresh and a
    device only answers what it has accepted, the map and the devices agree: the requests that are
    running or cancelled are those that some device works on, each on the device its entry names. -/

namespace DxRt.Scheduler
variable {p : Policy} {n : ℕ} {s t : Scheduler p n} {d : Fin n}

/-- Accepted submissions to `d` whose response has not been delivered, with their tasks. -/
def inFlight (d : Fin n) : List (Event n) → List (Key × ℤ)
  | [] => []
  | .inferenceRequest d' k taskId _ .ok :: log =>
    if d' = d then (k, taskId) :: inFlight d log else inFlight d log
  | .finishJobs d' response :: log =>
    if d' = d then (inFlight d log).eraseP (fun job => job.1 = response.key) else inFlight d log
  | _ :: log => inFlight d log

theorem map_fst_eraseP (k : Key) (l : List (Key × ℤ)) :
    ((l.eraseP (fun job => job.1 = k)).map Prod.fst : List Key) =
      (((l.map Prod.fst : List Key) : Multiset Key).erase k : Multiset Key) := by
  induction l with
  | nil => rfl
  | cons job l ih =>
    rw [List.map_cons, ← Multiset.cons_coe]
    by_cases h : job.1 = k
    · simp [h]
    · rw [Multiset.erase_cons_tail _ h, ← ih]
      simp [h]

theorem outstanding_eq (d : Fin n) : ∀ log : List (Event n),
    outstanding d log = ((inFlight d log).map Prod.fst : List Key)
  | [] => rfl
  | ev :: log => by
    have ih := outstanding_eq d log
    cases ev with
    | addScheduler | stopped | rejected | onInferenceComplete | onTaskDrained => exact ih
    | inferenceRequest d' k taskId state retval =>
      cases retval with
      | ebusy | eagain => exact ih
      | ok =>
        simp only [outstanding, inFlight]
        split_ifs
        · rw [ih, List.map_cons, Multiset.cons_coe]
        · exact ih
    | finishJobs d' response =>
      simp only [outstanding, inFlight]
      split_ifs
      · rw [ih, map_fst_eraseP]
      · exact ih

theorem inFlight_neutral : ∀ {l : List (Event n)} (log : List (Event n)),
    (∀ ev ∈ l, Neutral ev) → inFlight d (l ++ log) = inFlight d log
  | [], _, _ => rfl
  | ev :: l, log, h => by
    have hrest := inFlight_neutral log fun x hx => h x (List.mem_cons_of_mem _ hx)
    cases ev with
    | addScheduler | inferenceRequest | finishJobs => exact absurd (h _ (List.mem_cons_self ..)) id
    | stopped | rejected | onInferenceComplete | onTaskDrained => exact hrest

theorem Flushed.inFlight {extra : List (Event n)} (h : Flushed s extra t)
    (hextra : ∀ ev ∈ extra, Neutral ev) (d : Fin n) : inFlight d t.log = inFlight d s.log := by
  obtain ⟨l, hlog, hl⟩ := h.neutral hextra
  rw [hlog, inFlight_neutral _ hl]

theorem Stopped.inFlight (h : Stopped s t) (d : Fin n) : inFlight d t.log = inFlight d s.log := by
  obtain ⟨l, hlog, hl⟩ := h.neutral
  rw [hlog, inFlight_neutral _ hl]

theorem Submitted.inFlight {k : Key} {e : RequestEntry n} {retval : Retval}
    (h : Submitted s d k e retval t) (d' : Fin n) : inFlight d' t.log =
      if d' = d ∧ retval = .ok then (k, e.data.taskId) :: inFlight d' s.log
      else inFlight d' s.log := by
  rw [h.log]
  cases retval with
  | ok => simp only [Scheduler.inFlight, and_true, eq_comm]
  | ebusy | eagain => simp [Scheduler.inFlight]

theorem Answered.inFlight {response : Response} (h : Answered s d response t) (d' : Fin n) :
    inFlight d' t.log = if d' = d then
      (inFlight d' s.log).eraseP (fun job => job.1 = response.key) else inFlight d' s.log := by
  rw [h.log]
  simp only [Scheduler.inFlight, eq_comm]

/-- What `schedule` brings into flight was waiting in the queue of the device. -/
theorem Schedules.inFlight (h : Schedules d s t) {d' : Fin n} {k : Key} {taskId : ℤ}
    (hmem : (k, taskId) ∈ inFlight d' t.log) : (k, taskId) ∈ inFlight d' s.log ∨
      d' = d ∧ k ∈ s.queued d ∧ ∃ e, s.entry k = some e ∧ e.data.taskId = taskId := by
  induction h with
  | idle => exact Or.inl hmem
  | skip hpop _ _ ih =>
    rcases ih hmem with hold | ⟨hd, hq, hnew⟩
    · exact Or.inl hold
    · exact Or.inr ⟨hd, Multiset.mem_of_le (queued_pop_le hpop d) hq, hnew⟩
  | reject hpop _ _ hs' _ ih =>
    rcases ih hmem with hold | ⟨hd, hq, e, he, htask⟩
    · rw [hs'.log] at hold
      exact Or.inl hold
    · rw [queued, hs'.queues] at hq
      rw [hs'.entry] at he
      split_ifs at he
      exact Or.inr ⟨hd, Multiset.mem_of_le (queued_pop_le hpop d) hq, e, he, htask⟩
  | submit hpop hentry ht =>
    rw [ht.inFlight] at hmem
    split_ifs at hmem with hok
    · rcases List.mem_cons.mp hmem with heq | hold
      · obtain ⟨rfl, rfl⟩ := Prod.mk.inj heq
        exact Or.inr ⟨hok.1, hpop ▸ Multiset.mem_cons_self _ _, _, hentry, rfl⟩
      · exact Or.inl hold
    · exact Or.inl hmem

/-! ### The map and the devices agree -/

/-- The device and the task of a request that is running or cancelled. -/
def work (s : Scheduler p n) (k : Key) : Option (Option (Fin n) × ℤ) :=
  (s.entry k).bind fun e =>
    if e.state = .pending then none else some (e.deviceId, e.data.taskId)

theorem work_of_entry {k : Key} {e : RequestEntry n} (h : s.entry k = some e) :
    s.work k = if e.state = .pending then none else some (e.deviceId, e.data.taskId) := by
  rw [work, h, Option.bind_some]

theorem work_of_none {k : Key} (h : s.entry k = none) : s.work k = none := by
  rw [work, h, Option.bind_none]

theorem work_congr {k : Key} (h : t.entry k = s.entry k) : t.work k = s.work k := by
  rw [work, work, h]

structure FlightInv (s : Scheduler p n) : Prop where
  flying : ∀ d k taskId, (k, taskId) ∈ inFlight d s.log ↔ s.work k = some (some d, taskId)
  placed : ∀ k taskId, s.work k ≠ some (none, taskId)
  nodup : ∀ d, ((inFlight d s.log).map Prod.fst).Nodup

theorem FlightInv.same (h : FlightInv s) (hwork : ∀ k, t.work k = s.work k)
    (hflight : ∀ d, inFlight d t.log = inFlight d s.log) : FlightInv t where
  flying d k taskId := by rw [hflight, hwork, h.flying]
  placed k taskId := by rw [hwork]; exact h.placed k taskId
  nodup d := by rw [hflight]; exact h.nodup d

/-- With distinct keys, the response removes every job under its key. -/
theorem mem_eraseP_iff {k : Key} {job : Key × ℤ} {l : List (Key × ℤ)}
    (hnd : (l.map Prod.fst).Nodup) :
    job ∈ l.eraseP (fun job => job.1 = k) ↔ job ∈ l ∧ job.1 ≠ k := by
  induction l with
  | nil => simp
  | cons x l ih =>
    rw [List.map_cons, List.nodup_cons] at hnd
    by_cases hx : x.1 = k
    · have hrest : job ∈ l → job.1 ≠ k := by
        intro hmem hk
        exact hnd.1 (hx.trans hk.symm ▸ List.mem_map_of_mem hmem)
      rw [List.eraseP_cons_of_pos (by simpa using hx), List.mem_cons]
      constructor
      · intro hmem
        exact ⟨Or.inr hmem, hrest hmem⟩
      · rintro ⟨rfl | hmem, hk⟩
        · exact absurd hx hk
        · exact hmem
    · rw [List.eraseP_cons_of_neg (by simpa using hx), List.mem_cons, List.mem_cons, ih hnd.2]
      constructor
      · rintro (rfl | ⟨hmem, hk⟩)
        · exact ⟨Or.inl rfl, hx⟩
        · exact ⟨Or.inr hmem, hk⟩
      · rintro ⟨rfl | hmem, hk⟩
        · exact Or.inl rfl
        · exact Or.inr ⟨hmem, hk⟩

theorem FlightInv.rejected (h : FlightInv s) (hs : SubmitInv s) {q : DeviceQueue p} {k : Key}
    {e : RequestEntry n} {status : ℤ} (hpop : s.queued d = k ::ₘ q.contents)
    (hentry : s.entry k = some e) (ht : Rejected (s.setQueue d q) d k status t) : FlightInv t := by
  refine h.same (fun k' => ?_) (fun d' => by rw [ht.log]; rfl)
  by_cases hk : k' = k
  · subst hk
    rw [work_of_none (by rw [ht.entry, if_pos rfl]), work_of_entry hentry,
      if_pos (hs.popped hpop hentry).1]
  · exact work_congr (by rw [ht.entry, if_neg hk]; rfl)

theorem FlightInv.submitted (h : FlightInv s) (hs : SubmitInv s) {q : DeviceQueue p} {k : Key}
    {e : RequestEntry n} {retval : Retval} (hpop : s.queued d = k ::ₘ q.contents)
    (hentry : s.entry k = some e) (ht : Submitted (s.setQueue d q) d k e retval t) :
    FlightInv t := by
  have hidle : s.work k = none := by
    rw [work_of_entry hentry, if_pos (hs.popped hpop hentry).1]
  have hother : ∀ k', k' ≠ k → t.work k' = s.work k' := fun k' hk =>
    work_congr (by rw [ht.entry, if_neg hk]; rfl)
  by_cases hret : retval = .ok
  · subst hret
    have hself : t.work k = some (some d, e.data.taskId) :=
      work_of_entry (by rw [ht.entry, if_pos rfl, if_pos rfl])
    have hflight : ∀ d', inFlight d' t.log = if d' = d then
        (k, e.data.taskId) :: inFlight d' s.log else inFlight d' s.log := by
      intro d'
      rw [ht.inFlight]
      simp only [and_true]
      rfl
    have hnot : ∀ d' taskId, (k, taskId) ∉ inFlight d' s.log := fun d' taskId hmem => by
      rw [h.flying, hidle] at hmem
      cases hmem
    refine ⟨fun d' k' taskId => ?_, fun k' taskId => ?_, fun d' => ?_⟩
    · rw [hflight]
      by_cases hk : k' = k
      · subst hk
        rw [hself]
        split_ifs with hd
        · subst hd
          simp [hnot, eq_comm]
        · simp [hnot, Ne.symm hd]
      · rw [hother k' hk, ← h.flying]
        split_ifs
        · simp [hk]
        · rfl
    · by_cases hk : k' = k
      · subst hk
        rw [hself]
        exact nofun
      · rw [hother k' hk]
        exact h.placed k' taskId
    · rw [hflight]
      split_ifs
      · rw [List.map_cons, List.nodup_cons]
        refine ⟨fun hmem => ?_, h.nodup d'⟩
        obtain ⟨⟨k', taskId⟩, hjob, hk⟩ := List.mem_map.mp hmem
        obtain rfl : k' = k := hk
        exact hnot d' taskId hjob
      · exact h.nodup d'
  · refine h.same (fun k' => ?_) (fun d' => by rw [ht.inFlight, if_neg fun hc => hret hc.2]; rfl)
    by_cases hk : k' = k
    · subst hk
      rw [hidle, work_of_entry (by rw [ht.entry, if_pos rfl, if_neg hret]), if_pos rfl]
    · exact hother k' hk

theorem Schedules.flightInv (h : Schedules d s t) (hs : SubmitInv s) (hf : FlightInv s) :
    FlightInv t := by
  induction h with
  | idle => exact hf
  | skip hpop _ _ ih => exact ih (hs.skipped hpop) (hf.same (fun _ => rfl) (fun _ => rfl))
  | reject hpop hentry _ hs' _ ih => exact ih (hs.rejected hpop hs') (hf.rejected hs hpop hentry hs')
  | submit hpop hentry ht => exact hf.submitted hs hpop hentry ht

theorem FlightInv.added (h : FlightInv s) {r : Request} (hfree : s.entry r.key = none)
    (ht : Added s r d t) : FlightInv t := by
  refine h.same (fun k => ?_) (fun d' => by rw [ht.log]; rfl)
  by_cases hk : k = r.key
  · rw [hk, work_of_none hfree, work_of_entry (by rw [ht.entry, if_pos rfl]), if_pos rfl]
  · exact work_congr (by rw [ht.entry, if_neg hk])

/-- The device that answers is the one the entry names, so no other device has the job. -/
theorem FlightInv.answered (h : FlightInv s) {response : Response}
    (hmem : response.key ∈ outstanding d s.log) (ht : Answered s d response t) : FlightInv t := by
  obtain ⟨⟨k, taskId⟩, hjob, hk⟩ : ∃ job ∈ inFlight d s.log, job.1 = response.key := by
    rw [outstanding_eq, Multiset.mem_coe] at hmem
    exact List.mem_map.mp hmem
  obtain rfl : k = response.key := hk
  have hwork := (h.flying _ _ _).mp hjob
  have hflight : ∀ d' job, job ∈ inFlight d' t.log ↔
      job ∈ inFlight d' s.log ∧ job.1 ≠ response.key := by
    intro d' job
    rw [ht.inFlight]
    split_ifs with hd
    · exact mem_eraseP_iff (h.nodup d')
    · refine ⟨fun hj => ⟨hj, fun hk => hd ?_⟩, And.left⟩
      have hj' := (h.flying d' job.1 job.2).mp hj
      rw [hk, hwork] at hj'
      exact (Option.some.inj (Prod.mk.inj (Option.some.inj hj')).1).symm
  have hself : t.work response.key = none := work_of_none (by rw [ht.entry, if_pos rfl])
  have hother : ∀ k, k ≠ response.key → t.work k = s.work k := fun k hk =>
    work_congr (by rw [ht.entry, if_neg hk])
  refine ⟨fun d' k taskId => ?_, fun k taskId => ?_, fun d' => ?_⟩
  · rw [hflight]
    by_cases hk : k = response.key
    · subst hk
      simp [hself]
    · rw [hother k hk, ← h.flying]
      simp [hk]
  · by_cases hk : k = response.key
    · subst hk
      rw [hself]
      exact nofun
    · rw [hother k hk]
      exact h.placed k taskId
  · rw [ht.inFlight]
    split_ifs
    · exact (h.nodup d').sublist (List.eraseP_sublist.map _)
    · exact h.nodup d'

theorem FlightInv.stopped (h : FlightInv s) (hstop : Stopped s t) : FlightInv t := by
  refine h.same (fun k => ?_) hstop.inFlight
  rcases hstop.entry k with hsame | ⟨e, he, ⟨hst, hnew⟩ | ⟨hst, hnew⟩⟩
  · exact work_congr hsame
  · simp [work_of_entry he, work_of_entry hnew, hst]
  · rw [work_of_none hnew, work_of_entry he, if_pos hst]

/-- The environment of a run: fresh keys, and answers only to what was accepted. -/
def Regular (s : Scheduler p n) (op : Op n) : Prop := FreshKey s op ∧ AnswersOnce s op

instance (s : Scheduler p n) (op : Op n) : Decidable (Regular s op) :=
  inferInstanceAs (Decidable (_ ∧ _))

theorem flightInv_exec (hs : SubmitInv s) (h : FlightInv s) {op : Op n} (hop : Regular s op) :
    FlightInv (s.exec op) := by
  cases exec_effect s op with
  | added hadded hsched hflush =>
    have hs₁ := hs.added hop.1.2 hadded
    have h₁ := h.added hop.1.1 hadded
    rcases hsched with ⟨_, hsched⟩ | ⟨_, rfl⟩
    · exact (hsched.flightInv hs₁ h₁).same (fun k => work_congr (hflush.entry k))
        (hflush.inFlight (by simp))
    · exact h₁.same (fun k => work_congr (hflush.entry k)) (hflush.inFlight (by simp))
  | missed _ hans hsched _ => exact hsched.flightInv (hs.answered hans) (h.answered hop.2 hans)
  | finished _ hans hsched hflush =>
    have h₂ := hsched.flightInv (hs.answered hans) (h.answered hop.2 hans)
    exact h₂.same (fun k => work_congr (hflush.entry k))
      (hflush.inFlight (neutral_finishEvents _ _ _ _))
  | stopped hstop => exact h.stopped hstop

theorem flightInv_init (p : Policy) (n : ℕ) : FlightInv (init p n) :=
  ⟨fun _ _ _ => ⟨nofun, nofun⟩, fun _ _ => nofun, fun _ => List.nodup_nil⟩

/-! ### What a call brings into flight -/

theorem addScheduler_inFlight {env : Env} {r : Request} {d' : Fin n} {k : Key} {taskId : ℤ}
    (hmem : (k, taskId) ∈ inFlight d' (s.addScheduler env r d).log) :
    (k, taskId) ∈ inFlight d' s.log ∨ d' = d ∧ (k = r.key ∧ taskId = r.taskId ∨
      k ∈ s.queued d ∧ ∃ e, s.entry k = some e ∧ e.data.taskId = taskId) := by
  obtain ⟨s₁, s₂, hadded, hsched, hflush⟩ := addScheduler_spec s env r d
  have hlog : inFlight d' s₁.log = inFlight d' s.log := by
    rw [hadded.log]
    rfl
  rw [hflush.inFlight (by simp)] at hmem
  rcases hsched with ⟨_, hsched⟩ | ⟨_, rfl⟩
  · rcases hsched.inFlight hmem with hold | ⟨rfl, hq, e, he, htask⟩
    · exact Or.inl (hlog ▸ hold)
    · refine Or.inr ⟨rfl, ?_⟩
      rw [hadded.entry] at he
      split_ifs at he with hk
      · cases he
        exact Or.inl ⟨hk, htask.symm⟩
      · rw [hadded.queued, if_pos rfl] at hq
        exact Or.inr ⟨(Multiset.mem_cons.mp hq).resolve_left hk, e, he, htask⟩
  · exact Or.inl (hlog ▸ hmem)

theorem finishJobs_inFlight {env : Env} {response : Response} {d' : Fin n} {k : Key} {taskId : ℤ}
    (hmem : (k, taskId) ∈ inFlight d' (s.finishJobs env d response).log) :
    (k, taskId) ∈ inFlight d' s.log ∨
      d' = d ∧ k ∈ s.queued d ∧ ∃ e, s.entry k = some e ∧ e.data.taskId = taskId := by
  obtain ⟨s₁, s₂, hans, rfl, hcases⟩ := finishJobs_spec s env d response
  have hmem₂ : (k, taskId) ∈ inFlight d' (s₁.schedule env d).log := by
    rcases hcases with ⟨_, heq⟩ | ⟨e, _, hflush⟩
    · rwa [heq] at hmem
    · rwa [hflush.inFlight (neutral_finishEvents _ _ _ _)] at hmem
  rcases (schedule_schedules s₁ env d).inFlight hmem₂ with hold | ⟨rfl, hq, e, he, htask⟩
  · rw [hans.inFlight] at hold
    split_ifs at hold
    · exact Or.inl (List.mem_of_mem_eraseP hold)
    · exact Or.inl hold
  · rw [queued, hans.queues] at hq
    rw [hans.entry] at he
    split_ifs at he
    exact Or.inr ⟨rfl, hq, e, he, htask⟩

/-- `schedule` keeps the request of every entry. -/
theorem Schedules.data (h : Schedules d s t) {k : Key} {e' : RequestEntry n}
    (he' : t.entry k = some e') : ∃ e, s.entry k = some e ∧ e.data = e'.data := by
  induction h with
  | idle => exact ⟨e', he', rfl⟩
  | skip _ _ _ ih => exact ih he'
  | reject _ _ _ hs' _ ih =>
    obtain ⟨e, he, hdata⟩ := ih he'
    rw [hs'.entry] at he
    split_ifs at he
    exact ⟨e, he, hdata⟩
  | @submit s t k' q e retval _ hentry ht =>
    rw [ht.entry] at he'
    split_ifs at he' with hk hret
    · cases he'
      exact ⟨e, hk ▸ hentry, rfl⟩
    · cases he'
      exact ⟨e, hk ▸ hentry, rfl⟩
    · exact ⟨e', he', rfl⟩

theorem taskDrained_iff {pid taskId : ℤ} : s.taskDrained pid taskId = true ↔
    ∀ req e, s.entry (pid, req) = some e → e.data.taskId ≠ taskId := by
  simp only [taskDrained, List.all_eq_true, decide_eq_true_eq, entry]
  cases s.map.find? pid with
  | none => simp [SortedMap.empty]
  | some requests =>
    simp only [Option.getD_some, Option.bind_some, SortedMap.find?_eq_some]
    exact ⟨fun h req e he => h (req, e) he, fun h kv hkv => h kv.1 kv.2 hkv⟩

/-- When `FinishJobs` reports a task as drained, no request of the task is left. -/
theorem finishJobs_drained {env : Env} {response : Response} {pid taskId : ℤ}
    (h : (s.finishLocked env d response).2.drained = some (pid, taskId)) (req : ℤ)
    (e' : RequestEntry n) (he' : (s.finishJobs env d response).entry (pid, req) = some e') :
    e'.data.taskId ≠ taskId := by
  obtain ⟨s₁, s₂, hans, rfl, ⟨_, heq⟩ | ⟨e, he, heq⟩⟩ := finishLocked_spec s env d response
  · rw [heq] at h
    cases h
  · rw [heq] at h
    simp only at h
    split_ifs at h with hdrained
    obtain ⟨rfl, rfl⟩ := Prod.mk.inj (Option.some.inj h)
    have hentry : (s.finishJobs env d response).entry (response.procId, req) =
        (s₁.schedule env d).entry (response.procId, req) := by
      rw [finishJobs, heq, fire, fireDeferred_eq]
      split <;> split <;> rfl
    rw [hentry] at he'
    obtain ⟨e₁, he₁, hdata⟩ := (schedule_schedules s₁ env d).data he'
    rw [← hdata]
    exact taskDrained_iff.mp hdrained req e₁ he₁

/-! ### What a call leaves alone -/

/-- Absent requests stay absent, and those that a device works on stay as they are. -/
def Kept (s t : Scheduler p n) (k : Key) : Prop :=
  (s.entry k = none → t.entry k = none) ∧
    ∀ e, s.entry k = some e → e.state ≠ .pending → t.entry k = some e

theorem Schedules.kept (h : Schedules d s t) (hs : SubmitInv s) (k : Key) : Kept s t k :=
  ⟨h.entry_none, (h.submitInv hs).2 k⟩

theorem addScheduler_kept (hs : SubmitInv s) {env : Env} {r : Request}
    (hfresh : FreshKey s (.addScheduler env r d)) {k : Key} (hk : k ≠ r.key) :
    Kept s (s.addScheduler env r d) k := by
  obtain ⟨s₁, s₂, hadded, hsched, hflush⟩ := addScheduler_spec s env r d
  have hsame : s₁.entry k = s.entry k := by rw [hadded.entry, if_neg hk]
  have hkept : Kept s₁ s₂ k := by
    rcases hsched with ⟨_, hsched⟩ | ⟨_, rfl⟩
    · exact hsched.kept (hs.added hfresh.2 hadded) k
    · exact ⟨id, fun _ he _ => he⟩
  rw [Kept, hflush.entry, ← hsame]
  exact hkept

theorem finishJobs_kept (hs : SubmitInv s) {env : Env} {response : Response} {k : Key}
    (hk : k ≠ response.key) : Kept s (s.finishJobs env d response) k := by
  obtain ⟨s₁, s₂, hans, rfl, hcases⟩ := finishJobs_spec s env d response
  have hsame : s₁.entry k = s.entry k := by rw [hans.entry, if_neg hk]
  have hkept := (schedule_schedules s₁ env d).kept (hs.answered hans) k
  rw [Kept, ← hsame]
  rcases hcases with ⟨_, heq⟩ | ⟨e, _, hflush⟩
  · rwa [heq]
  · rwa [hflush.entry]

theorem finishJobs_gone {env : Env} {response : Response} :
    (s.finishJobs env d response).entry response.key = none := by
  obtain ⟨s₁, s₂, hans, rfl, hcases⟩ := finishJobs_spec s env d response
  have hgone : (s₁.schedule env d).entry response.key = none :=
    (schedule_schedules s₁ env d).entry_none (by rw [hans.entry, if_pos rfl])
  rcases hcases with ⟨_, heq⟩ | ⟨e, _, hflush⟩
  · rwa [heq]
  · rwa [hflush.entry]

theorem CancelledOrGone.kept {k : Key} (h : CancelledOrGone s k) (hk : Kept s t k) :
    CancelledOrGone t k := by
  cases he : s.entry k with
  | none =>
    intro e' he'
    rw [hk.1 he] at he'
    cases he'
  | some e =>
    have hnp : e.state ≠ .pending := by rw [h e he]; decide
    exact h.of_entry (Or.inr ((hk.2 e he hnp).trans he.symm))

/-- `FinishJobs` reports the task of its request when it was the last request of the task. -/
theorem finishJobs_last {env : Env} {response : Response} {e : RequestEntry n}
    (he : s.entry response.key = some e)
    (hlast : ∀ req e', (response.procId, req) ≠ response.key →
      s.entry (response.procId, req) = some e' → e'.data.taskId ≠ e.data.taskId) :
    (s.finishLocked env d response).2.drained = some (response.procId, e.data.taskId) := by
  obtain ⟨s₁, s₂, hans, rfl, ⟨hnone, _⟩ | ⟨e₁, he₁, heq⟩⟩ := finishLocked_spec s env d response
  · rw [hnone] at he
    cases he
  · obtain rfl : e = e₁ := Option.some.inj (he.symm.trans he₁)
    have hdrained : s₁.taskDrained response.procId e.data.taskId = true := by
      refine taskDrained_iff.mpr fun req e' he' => ?_
      rw [hans.entry] at he'
      split_ifs at he' with hk
      exact hlast req e' hk he'
    rw [heq]
    exact if_pos hdrained

end DxRt.Scheduler
