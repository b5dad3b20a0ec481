import DxRt.Scheduler.Submission

/-! Exactly one completion report.

    A refused request is reported when the call that refused it flushes the deferred errors. Two
    exits of `FinishJobs` do not flush: a response whose process, or whose request, is not in the
    map. When no such response triggers a refusal, and keys are added only when no queue holds
    them, every request that leaves the map without having been stopped is reported exactly once,
    by the end of the call that removed it, and with what took it out: the device's response, or
    the status of the refusal. -/

namespace DxRt.Scheduler
variable {p : Policy} {n : ℕ} {s t : Scheduler p n} {d : Fin n}

/-! ### What the log says about a request since it was last added -/

/-- The calls of `onInferenceComplete` for `k`, the last one first. -/
def reports (k : Key) : List (Event n) → List (Response × Fin n)
  | [] => []
  | .addScheduler _ r :: log => if r.key = k then [] else reports k log
  | .onInferenceComplete response d :: log =>
    if response.key = k then (response, d) :: reports k log else reports k log
  | _ :: log => reports k log

/-- How often `onInferenceComplete` was called for `k`. -/
def completed (k : Key) (log : List (Event n)) : ℕ := (reports k log).length

/-- What can end a request: a stop function, a refusal by `doInference`, a response. -/
inductive Fate (n : ℕ) where
  | stopped
  | refused (status : ℤ) (deviceId : Fin n)
  | answered (response : Response) (deviceId : Fin n)
  deriving DecidableEq

/-- The report that is due to `k`. -/
def Fate.report (k : Key) : Fate n → List (Response × Fin n)
  | .stopped => []
  | .refused status d => [(errorResp k status, d)]
  | .answered response d => [(response, d)]

/-- What ended `k`, if anything has: the first such event, whatever comes after it. -/
def fate (k : Key) : List (Event n) → Option (Fate n)
  | [] => none
  | .addScheduler _ r :: log => if r.key = k then none else fate k log
  | .stopped k' :: log => (fate k log).or (if k' = k then some .stopped else none)
  | .rejected d k' status :: log =>
    (fate k log).or (if k' = k then some (.refused status d) else none)
  | .finishJobs d response :: log =>
    (fate k log).or (if response.key = k then some (.answered response d) else none)
  | _ :: log => fate k log

/-- A stop function removed or cancelled `k`. -/
def wasStopped (k : Key) : List (Event n) → Bool
  | [] => false
  | .addScheduler _ r :: log => if r.key = k then false else wasStopped k log
  | .stopped k' :: log => decide (k' = k) || wasStopped k log
  | _ :: log => wasStopped k log

/-- `k` was added. -/
def wasAdded (k : Key) : List (Event n) → Bool
  | [] => false
  | .addScheduler _ r :: log => decide (r.key = k) || wasAdded k log
  | _ :: log => wasAdded k log

/-- `doInference` refuses with -1 or with -2. -/
def KnownStatus (log : List (Event n)) : Prop :=
  ∀ d k status, .rejected d k status ∈ log → status = -1 ∨ status = -2

theorem stopped_views {k : Key} (log : List (Event n)) : ∀ ks : List Key,
    reports k (ks.map .stopped ++ log) = reports k log ∧
      (wasStopped k (ks.map .stopped ++ log) = true ↔ k ∈ ks ∨ wasStopped k log = true) ∧
      wasAdded k (ks.map .stopped ++ log) = wasAdded k log
  | [] => ⟨rfl, by simp, rfl⟩
  | k' :: ks => by
    obtain ⟨hr, hs, ha⟩ := stopped_views (k := k) log ks
    refine ⟨hr, ?_, ha⟩
    rw [List.map_cons, List.cons_append, wasStopped, Bool.or_eq_true, decide_eq_true_eq, hs,
      List.mem_cons, or_assoc, eq_comm (a := k')]

theorem fate_stopped {k : Key} (log : List (Event n)) : ∀ ks : List Key,
    fate k (ks.map .stopped ++ log) = (fate k log).or (if k ∈ ks then some .stopped else none)
  | [] => by simp
  | k' :: ks => by
    rw [List.map_cons, List.cons_append, fate, fate_stopped log ks]
    by_cases hk : k = k'
    · subst hk
      cases fate k log <;> by_cases hks : k ∈ ks <;> simp [hks]
    · simp [hk, Ne.symm hk]

/-- Calls of the listener do not say that a request was added, nor what became of it. -/
theorem callback_views {k : Key} : ∀ {l : List (Event n)} (log : List (Event n)),
    (∀ ev ∈ l, Callback ev) → fate k (l ++ log) = fate k log ∧
      wasStopped k (l ++ log) = wasStopped k log ∧ wasAdded k (l ++ log) = wasAdded k log
  | [], _, _ => ⟨rfl, rfl, rfl⟩
  | ev :: l, log, h => by
    have hrest := callback_views (k := k) log fun x hx => h x (List.mem_cons_of_mem _ hx)
    have hev := h _ (List.mem_cons_self ..)
    cases ev with
    | addScheduler | inferenceRequest | finishJobs | stopped | rejected => exact absurd hev id
    | onInferenceComplete | onTaskDrained => exact hrest

/-! ### The reports that are due -/

/-- The ones that concern `k`. -/
def concerning (k : Key) (cbs : List (Response × Fin n)) : List (Response × Fin n) :=
  cbs.filter fun cb => decide (cb.1.key = k)

/-- Reports owed to `k` by the call in progress, deferred for it, or made; the last one first. -/
def due (extra : List (Response × Fin n)) (s : Scheduler p n) (k : Key) :
    List (Response × Fin n) :=
  concerning k extra ++ (concerning k s.pendingErrorCallbacks).reverse ++ reports k s.log

theorem reports_completions {k : Key} (log : List (Event n)) :
    ∀ deferred : List (Response × Fin n),
      reports k (completions deferred ++ log) = (concerning k deferred).reverse ++ reports k log
  | [] => rfl
  | cb :: deferred => by
    have hcons : completions (cb :: deferred) ++ log =
        completions deferred ++ (.onInferenceComplete cb.1 cb.2 :: log) := by simp [completions]
    rw [hcons, reports_completions _ deferred, reports, concerning, concerning, List.filter_cons]
    by_cases hk : cb.1.key = k <;> simp [hk]

/-- The request that a response completes: owed its report, unless it was cancelled. -/
def owed (d : Fin n) (response : Response) (e : RequestEntry n) : List (Response × Fin n) :=
  if e.state = .cancelled then [] else [(response, d)]

/-- The events at the end of `FinishJobs` report what is owed. -/
theorem reports_finishEvents {k : Key} (s₁ : Scheduler p n) (d : Fin n) (response : Response)
    (e : RequestEntry n) (log : List (Event n)) :
    reports k (finishEvents s₁ d response e ++ log) =
      concerning k (owed d response e) ++ reports k log := by
  rw [finishEvents, owed, concerning]
  by_cases hc : e.state = .cancelled <;> by_cases hk : response.key = k <;>
    by_cases hd : s₁.taskDrained response.procId e.data.taskId = true <;>
    simp [hc, hk, hd, reports]

theorem concerning_owed_ne {k : Key} {response : Response} (hk : k ≠ response.key) (d : Fin n)
    (e : RequestEntry n) : concerning k (owed d response e) = [] := by
  rw [owed, concerning]
  split_ifs <;> simp [Ne.symm hk]

theorem concerning_owed (d : Fin n) (response : Response) (e : RequestEntry n) :
    concerning response.key (owed d response e) = owed d response e := by
  rw [owed, concerning]
  split_ifs <;> simp

/-! ### What is due after each update -/

theorem Rejected.due_self {extra : List (Response × Fin n)} {k : Key} {status : ℤ}
    (h : Rejected s d k status t) :
    due extra t k = concerning k extra ++ (errorResp k status, d) ::
      ((concerning k s.pendingErrorCallbacks).reverse ++ reports k s.log) := by
  have hreports : reports k t.log = reports k s.log := by rw [h.log]; rfl
  have hkey : (errorResp k status).key = k := rfl
  simp [due, concerning, h.pending, hreports, hkey]

theorem Rejected.due_ne {extra : List (Response × Fin n)} {k k' : Key} {status : ℤ}
    (h : Rejected s d k status t) (hk : k ≠ k') : due extra t k' = due extra s k' := by
  have hreports : reports k' t.log = reports k' s.log := by rw [h.log]; rfl
  have hkey : (errorResp k status).key ≠ k' := hk
  simp [due, concerning, h.pending, hreports, hkey]

theorem Submitted.due {extra : List (Response × Fin n)} {k : Key} {e : RequestEntry n}
    {retval : Retval} (h : Submitted s d k e retval t) (k' : Key) :
    due extra t k' = due extra s k' := by
  have hreports : reports k' t.log = reports k' s.log := by rw [h.log]; rfl
  simp only [Scheduler.due, hreports, h.pending]

/-- A new life begins with nothing due. -/
theorem Added.due {r : Request} (h : Added s r d t) (k : Key) :
    due [] t k = if r.key = k then (concerning k s.pendingErrorCallbacks).reverse else due [] s k := by
  simp only [Scheduler.due, h.pending, h.log, reports]
  split_ifs <;> simp [concerning]

theorem Answered.due {response : Response} {owe : List (Response × Fin n)}
    (h : Answered s d response t) (k : Key) : due owe t k = concerning k owe ++ due [] s k := by
  have hreports : reports k t.log = reports k s.log := by rw [h.log]; rfl
  simp [Scheduler.due, hreports, h.pending, concerning]

/-- The flush turns what is deferred or owed into reports. -/
theorem Flushed.due {owe : List (Response × Fin n)} {extra : List (Event n)}
    (hf : Flushed s extra t)
    (hextra : ∀ k log, reports k (extra ++ log) = concerning k owe ++ reports k log) (k : Key) :
    due [] t k = due owe s k := by
  simp [Scheduler.due, hf.log, hf.pending, List.append_assoc, hextra, reports_completions,
    concerning]

theorem Flushed.views {extra : List (Event n)} (hf : Flushed s extra t)
    (hcalls : ∀ ev ∈ extra, Callback ev) (k : Key) : fate k t.log = fate k s.log ∧
      wasStopped k t.log = wasStopped k s.log ∧ wasAdded k t.log = wasAdded k s.log := by
  rw [hf.log]
  refine callback_views s.log fun ev hev => ?_
  rcases List.mem_append.mp hev with hev | hev
  · exact hcalls ev hev
  · exact callback_completions _ ev hev

theorem Stopped.due (h : Stopped s t) (k : Key) : due [] t k = due [] s k := by
  obtain ⟨ks, hlog, _⟩ := h.log
  simp only [Scheduler.due, hlog, (stopped_views s.log ks).1, h.pending]

/-! ### The invariant -/

/-- While a request is in the map nothing is due for it; once it has left, what took it out says
    what is due. -/
structure CompleteInv (extra : List (Response × Fin n)) (s : Scheduler p n) : Prop where
  live : ∀ k e, s.entry k = some e → due extra s k = [] ∧
    fate k s.log = if e.state = .cancelled then some .stopped else none
  gone : ∀ k, s.entry k = none → wasAdded k s.log = true →
    ∃ f, fate k s.log = some f ∧ due extra s k = f.report k
  status : KnownStatus s.log

theorem KnownStatus.cons {ev : Event n} {log : List (Event n)} (h : KnownStatus log)
    (hev : ∀ d k status, ev = .rejected d k status → status = -1 ∨ status = -2) :
    KnownStatus (ev :: log) := by
  intro d k status hmem
  rcases List.mem_cons.mp hmem with heq | hmem
  · exact hev d k status heq.symm
  · exact h d k status hmem

theorem KnownStatus.append {l log : List (Event n)} (h : KnownStatus log)
    (hl : ∀ d k status, .rejected d k status ∉ l) : KnownStatus (l ++ log) := by
  intro d k status hmem
  rcases List.mem_append.mp hmem with hmem | hmem
  · exact absurd hmem (hl d k status)
  · exact h d k status hmem

theorem CompleteInv.rejected {extra : List (Response × Fin n)} (h : CompleteInv extra s)
    {q : DeviceQueue p} {k : Key} {e : RequestEntry n} {status : ℤ}
    (hstatus : status = -1 ∨ status = -2) (hentry : s.entry k = some e)
    (hpending : e.state = .pending) (ht : Rejected (s.setQueue d q) d k status t) :
    CompleteInv extra t := by
  have hfate : ∀ k', fate k' t.log =
      (fate k' s.log).or (if k = k' then some (.refused status d) else none) := fun k' => by
    rw [ht.log]
    rfl
  have hadded : ∀ k', wasAdded k' t.log = wasAdded k' s.log := fun k' => by rw [ht.log]; rfl
  obtain ⟨hdue, hnone⟩ := h.live k e hentry
  rw [hpending] at hnone
  refine ⟨fun k' e' he' => ?_, fun k' hgone hadd => ?_, ?_⟩
  · rw [ht.entry] at he'
    split_ifs at he' with hk
    rw [ht.due_ne (Ne.symm hk), hfate, if_neg (Ne.symm hk), Option.or_none]
    exact h.live k' e' he'
  · by_cases hk : k = k'
    · -- nothing was due before, so the refusal is all that is due
      subst hk
      refine ⟨.refused status d, by rw [hfate, hnone, if_pos rfl]; rfl, ?_⟩
      obtain ⟨⟨hextra, hdeferred⟩, hmade⟩ : (concerning k extra = [] ∧
          (concerning k s.pendingErrorCallbacks).reverse = []) ∧ reports k s.log = [] := by
        simpa only [due, List.append_eq_nil_iff] using hdue
      have hself : due extra t k = concerning k extra ++ (errorResp k status, d) ::
          ((concerning k s.pendingErrorCallbacks).reverse ++ reports k s.log) := ht.due_self
      rw [hextra, hdeferred, hmade] at hself
      exact hself
    · rw [ht.entry, if_neg (Ne.symm hk)] at hgone
      rw [hadded] at hadd
      rw [ht.due_ne hk, hfate, if_neg hk, Option.or_none]
      exact h.gone k' hgone hadd
  · rw [ht.log]
    refine KnownStatus.cons h.status fun d' k' status' heq => ?_
    cases heq
    exact hstatus

theorem CompleteInv.submitted {extra : List (Response × Fin n)} (h : CompleteInv extra s)
    {q : DeviceQueue p} {k : Key} {e : RequestEntry n} {retval : Retval}
    (hentry : s.entry k = some e) (hpending : e.state = .pending)
    (ht : Submitted (s.setQueue d q) d k e retval t) : CompleteInv extra t := by
  have hfate : ∀ k', fate k' t.log = fate k' s.log := fun k' => by rw [ht.log]; rfl
  have hadded : ∀ k', wasAdded k' t.log = wasAdded k' s.log := fun k' => by rw [ht.log]; rfl
  have hdue : ∀ k', due extra t k' = due extra s k' := fun k' => ht.due k'
  obtain ⟨hzero, hnone⟩ := h.live k e hentry
  rw [hpending] at hnone
  refine ⟨fun k' e' he' => ?_, fun k' hgone hadd => ?_, ?_⟩
  · rw [hdue, hfate]
    rw [ht.entry] at he'
    split_ifs at he' with hk hret
    · subst hk
      cases he'
      exact ⟨hzero, hnone⟩
    · subst hk
      cases he'
      exact ⟨hzero, hnone⟩
    · exact h.live k' e' he'
  · rw [hdue, hfate]
    rw [hadded] at hadd
    rw [ht.entry] at hgone
    split_ifs at hgone
    exact h.gone k' hgone hadd
  · rw [ht.log]
    exact KnownStatus.cons h.status nofun

theorem Schedules.completeInv {extra : List (Response × Fin n)} (h : Schedules d s t)
    (hs : SubmitInv s) (hc : CompleteInv extra s) : CompleteInv extra t := by
  induction h with
  | idle => exact hc
  | skip hpop _ _ ih => exact ih (hs.skipped hpop) ⟨hc.live, hc.gone, hc.status⟩
  | reject hpop hentry hstatus hs' _ ih =>
    exact ih (hs.rejected hpop hs')
      (hc.rejected hstatus hentry (hs.popped hpop hentry).1 hs')
  | submit hpop hentry ht => exact hc.submitted hentry (hs.popped hpop hentry).1 ht

/-! ### The calls -/

theorem CompleteInv.added {r : Request} (h : CompleteInv [] s)
    (hpending : s.pendingErrorCallbacks = []) (ht : Added s r d t) : CompleteInv [] t := by
  have hdue : ∀ k, due [] t k = if r.key = k then [] else due [] s k := fun k => by
    rw [ht.due, hpending]
    rfl
  have hfate : ∀ k, fate k t.log = if r.key = k then none else fate k s.log := fun k => by
    rw [ht.log]
    rfl
  have hadded : ∀ k, wasAdded k t.log = true → r.key = k ∨ wasAdded k s.log = true := by
    intro k hk
    rw [ht.log, wasAdded, Bool.or_eq_true, decide_eq_true_eq] at hk
    exact hk
  refine ⟨fun k e he => ?_, fun k he hadd => ?_, ?_⟩
  · rw [hdue, hfate]
    rw [ht.entry] at he
    by_cases hk : k = r.key
    · rw [if_pos hk] at he
      cases he
      rw [if_pos hk.symm, if_pos hk.symm]
      exact ⟨rfl, rfl⟩
    · rw [if_neg hk] at he
      rw [if_neg (Ne.symm hk), if_neg (Ne.symm hk)]
      exact h.live k e he
  · rw [ht.entry] at he
    split_ifs at he with hk
    rw [hdue, hfate, if_neg (Ne.symm hk), if_neg (Ne.symm hk)]
    exact h.gone k he ((hadded k hadd).resolve_left (Ne.symm hk))
  · rw [ht.log]
    exact KnownStatus.cons h.status nofun

theorem Answered.fate {response : Response} (h : Answered s d response t) (k : Key) :
    fate k t.log =
      (fate k s.log).or (if response.key = k then some (.answered response d) else none) := by
  rw [h.log]
  rfl

theorem CompleteInv.answered {response : Response} {e : RequestEntry n} (h : CompleteInv [] s)
    (hentry : s.entry response.key = some e) (ht : Answered s d response t) :
    CompleteInv (owed d response e) t := by
  have hadded : ∀ k, wasAdded k t.log = wasAdded k s.log := fun k => by rw [ht.log]; rfl
  obtain ⟨hzero, hnow⟩ := h.live _ e hentry
  refine ⟨fun k e' he' => ?_, fun k hgone hadd => ?_, ?_⟩
  · rw [ht.entry] at he'
    split_ifs at he' with hk
    rw [ht.due, ht.fate, concerning_owed_ne hk, if_neg (Ne.symm hk), Option.or_none]
    exact h.live k e' he'
  · rw [hadded] at hadd
    rw [ht.due, ht.fate]
    by_cases hk : k = response.key
    · -- a cancelled request was stopped already, any other one ends here
      subst hk
      rw [hzero, hnow, concerning_owed, List.append_nil, if_pos rfl, owed]
      by_cases hc : e.state = .cancelled
      · rw [if_pos hc, if_pos hc]
        exact ⟨.stopped, rfl, rfl⟩
      · rw [if_neg hc, if_neg hc]
        exact ⟨.answered response d, rfl, rfl⟩
    · rw [ht.entry, if_neg hk] at hgone
      rw [concerning_owed_ne hk, if_neg (Ne.symm hk), Option.or_none]
      exact h.gone k hgone hadd
  · rw [ht.log]
    exact KnownStatus.cons h.status nofun

/-- A response for a request that is not in the map changes no fate. -/
theorem CompleteInv.unanswered {response : Response} (h : CompleteInv [] s)
    (hnone : s.entry response.key = none) (ht : Answered s d response t) : CompleteInv [] t := by
  have hadded : ∀ k, wasAdded k t.log = wasAdded k s.log := fun k => by rw [ht.log]; rfl
  have hentry : ∀ k, t.entry k = s.entry k := by
    intro k
    rw [ht.entry]
    split_ifs with hk
    · rw [hk, hnone]
    · rfl
  have hdue : ∀ k, due [] t k = due [] s k := fun k => ht.due k
  refine ⟨fun k e he => ?_, fun k hgone hadd => ?_, ?_⟩
  · rw [hentry] at he
    have hk : response.key ≠ k := by
      rintro rfl
      cases hnone.symm.trans he
    rw [hdue, ht.fate, if_neg hk, Option.or_none]
    exact h.live k e he
  · rw [hadded] at hadd
    obtain ⟨f, hf, hreport⟩ := h.gone k (hentry k ▸ hgone) hadd
    exact ⟨f, by rw [ht.fate, hf]; rfl, (hdue k).trans hreport⟩
  · rw [ht.log]
    exact KnownStatus.cons h.status nofun

theorem CompleteInv.flushed {owe : List (Response × Fin n)} {extra : List (Event n)}
    (h : CompleteInv owe s) (hf : Flushed s extra t) (hcalls : ∀ ev ∈ extra, Callback ev)
    (hextra : ∀ k log, reports k (extra ++ log) = concerning k owe ++ reports k log) :
    CompleteInv [] t := by
  have hdue := hf.due hextra
  refine ⟨fun k e he => ?_, fun k he hadd => ?_, ?_⟩
  · rw [hdue, (hf.views hcalls k).1]
    exact h.live k e (hf.entry k ▸ he)
  · rw [(hf.views hcalls k).2.2] at hadd
    rw [hdue, (hf.views hcalls k).1]
    exact h.gone k (hf.entry k ▸ he) hadd
  · rw [hf.log]
    refine KnownStatus.append h.status fun d k status hmem => ?_
    rcases List.mem_append.mp hmem with hmem | hmem
    · exact hcalls _ hmem
    · exact callback_completions _ _ hmem

theorem CompleteInv.stopped (h : CompleteInv [] s) (hstop : Stopped s t) : CompleteInv [] t := by
  obtain ⟨ks, hlog, hks⟩ := hstop.log
  have hfate : ∀ k, fate k t.log = (fate k s.log).or (if k ∈ ks then some .stopped else none) :=
    fun k => by rw [hlog, fate_stopped]
  have hkept : ∀ k, t.entry k = s.entry k → fate k t.log = fate k s.log := fun k hsame => by
    rw [hfate, if_neg fun hk => (hks k).mp hk hsame, Option.or_none]
  have htouched : ∀ k e, s.entry k = some e → t.entry k ≠ s.entry k →
      fate k t.log = some .stopped := by
    intro k e he hne
    rw [hfate, (h.live k e he).2, if_pos ((hks k).mpr hne)]
    split_ifs <;> rfl
  refine ⟨fun k e' he' => ?_, fun k hnone hadd => ?_, ?_⟩
  · rw [hstop.due]
    rcases hstop.entry k with hsame | ⟨e, he, ⟨hst, hnew⟩ | ⟨_, hnew⟩⟩
    · rw [hkept k hsame]
      exact h.live k e' (hsame ▸ he')
    · have hne : t.entry k ≠ s.entry k := fun heq => by
        rw [hnew, he] at heq
        have hstate := congrArg RequestEntry.state (Option.some.inj heq)
        rw [hst] at hstate
        cases hstate
      rw [hnew] at he'
      cases he'
      exact ⟨(h.live k e he).1, htouched k e he hne⟩
    · rw [hnew] at he'
      cases he'
  · rw [hlog, (stopped_views s.log ks).2.2] at hadd
    rw [hstop.due]
    cases he : s.entry k with
    | none =>
      rw [hkept k (hnone.trans he.symm)]
      exact h.gone k he hadd
    | some e =>
      have hne : t.entry k ≠ s.entry k := fun heq => by
        rw [hnone, he] at heq
        cases heq
      exact ⟨.stopped, htouched k e he hne, (h.live k e he).1⟩
  · rw [hlog]
    refine KnownStatus.append h.status fun d k status hmem => ?_
    obtain ⟨k', _, heq⟩ := List.mem_map.mp hmem
    cases heq

/-! ### Runs -/

/-- Every task is valid and no device is blocked. -/
def NeverRefuses (env : Env) : Prop :=
  ∀ i, (env i).validateTask = true ∧ (env i).isBlocked = false

theorem doInference_pending {next : Scheduler p n → Scheduler p n} {answer : Answer} {k : Key}
    (hvalid : answer.validateTask = true) (hblocked : answer.isBlocked = false)
    (hnext : ∀ s, (next s).pendingErrorCallbacks = s.pendingErrorCallbacks) (s : Scheduler p n) :
    (doInference next answer d k s).pendingErrorCallbacks = s.pendingErrorCallbacks := by
  rw [doInference]
  split
  · exact hnext s
  · split
    · exact hnext s
    · rw [if_neg (by simp [hvalid]), if_neg (by simp [hblocked])]
      split <;> rfl

/-- Without a refusal nothing is deferred. -/
theorem scheduleUpTo_pending : ∀ (fuel : ℕ) {env : Env} (s : Scheduler p n), NeverRefuses env →
    (scheduleUpTo fuel env d s).pendingErrorCallbacks = s.pendingErrorCallbacks
  | 0, _, _, _ => rfl
  | fuel + 1, env, s, h => by
    rw [scheduleUpTo]
    split
    · rfl
    · exact doInference_pending (h 0).1 (h 0).2
        (fun s' => scheduleUpTo_pending fuel s' fun i => h (i + 1)) _

/-- Keys are added only when they are neither in the map nor in a queue; a response is for a
    request in the map, or nothing is refused while it is handled. -/
def Reported (s : Scheduler p n) : Op n → Prop
  | .addScheduler _ r _ => s.entry r.key = none ∧ ∀ d, r.key ∉ s.queued d
  | .finishJobs env _ response => s.hasPendingRequest response.key = true ∨ NeverRefuses env
  | _ => True

theorem Reported.freshKey {op : Op n} (h : Reported s op) : FreshKey s op := by
  cases op with
  | addScheduler => exact h
  | finishJobs | stopTaskInference | stopAllInferenceForProcess | clearRunningRequests => trivial

structure ReportInv (s : Scheduler p n) : Prop where
  submit : SubmitInv s
  complete : CompleteInv [] s
  flushed : s.pendingErrorCallbacks = []

theorem reportInv_step (s t : Scheduler p n) (hst : Step Reported s t) (h : ReportInv s) :
    ReportInv t := by
  obtain ⟨op, hop, rfl⟩ := hst
  have hsubmit := (submitInv_exec h.submit hop.freshKey).1
  cases exec_effect s op with
  | @added env r d s₁ s₂ _ hadded hsched hflush =>
    have hs₁ : SubmitInv s₁ := h.submit.added hop.2 hadded
    have hc₁ : CompleteInv [] s₁ := h.complete.added h.flushed hadded
    have hc₂ : CompleteInv [] s₂ := by
      rcases hsched with ⟨_, hsched⟩ | ⟨_, rfl⟩
      · exact hsched.completeInv hs₁ hc₁
      · exact hc₁
    exact ⟨hsubmit, hc₂.flushed hflush (by simp) (fun _ _ => rfl), hflush.pending⟩
  | @missed env d response s₁ _ hentry hans hsched heq =>
    have hs₁ := h.submit.answered hans
    have hc₁ := h.complete.unanswered hentry hans
    refine ⟨hsubmit, hsched.completeInv hs₁ hc₁, ?_⟩
    have hnever : NeverRefuses env := by
      refine hop.resolve_left ?_
      simp [hasPendingRequest, hentry]
    rw [heq, schedule, scheduleUpTo_pending _ _ hnever, hans.pending, h.flushed]
  | @finished env d response e s₁ s₂ _ hentry hans hsched hflush =>
    have hs₁ := h.submit.answered hans
    have hc₂ := hsched.completeInv hs₁ (h.complete.answered hentry hans)
    exact ⟨hsubmit, hc₂.flushed hflush (callback_finishEvents _ _ _ _)
      (fun _ _ => reports_finishEvents _ _ _ _ _), hflush.pending⟩
  | stopped hstop =>
    exact ⟨hsubmit, h.complete.stopped hstop, hstop.pending.trans h.flushed⟩

theorem completeInv_init (p : Policy) (n : ℕ) : CompleteInv [] (init p n) := by
  refine ⟨fun k e he => ?_, fun k _ hadd => ?_, fun d k status hmem => ?_⟩
  · cases (show (init p n).entry k = none from rfl) ▸ he
  · cases hadd
  · cases hmem

/-- Exactly one completion report, in a state between calls. -/
structure ReportedOnce (s : Scheduler p n) : Prop where
  /-- No report is held back. -/
  flushed : s.pendingErrorCallbacks = []
  /-- A request in the map has not been reported, and only a stop function may have ended it. -/
  live : ∀ k e, s.entry k = some e → reports k s.log = [] ∧
    fate k s.log = if e.state = .cancelled then some .stopped else none
  /-- A request that has left the map was stopped and not reported, or was reported once: with the
      response that took it out, or with the status of its refusal. -/
  gone : ∀ k, wasAdded k s.log = true → s.entry k = none →
    ∃ f, fate k s.log = some f ∧ reports k s.log = f.report k
  /-- The status of a refusal is -1 or -2. -/
  status : KnownStatus s.log

/-- In every run that adds only keys that are in no queue, and whose responses are for requests in
    the map or meet no refusal, every request is reported as it should be. -/
theorem reported_once {s : Scheduler p n}
    (hrun : Relation.ReflTransGen (Step Reported) (init p n) s) : ReportedOnce s := by
  have h : ReportInv s := Run.invariant reportInv_step hrun
    ⟨submitInv_init p n, completeInv_init p n, rfl⟩
  have hdue : ∀ k, due [] s k = reports k s.log := fun k => by simp [due, h.flushed, concerning]
  refine ⟨h.flushed, fun k e he => ?_, fun k hadd hnone => ?_, h.complete.status⟩
  · rw [← hdue]
    exact h.complete.live k e he
  · rw [← hdue]
    exact h.complete.gone k hnone hadd

/-- A listener that refuses every task. -/
def refusing : Env := fun _ => ⟨false, false, .ok, 0⟩

/-- Request 7 of process 1 waits for a busy device; when the device answers process 2 the task is
    no longer valid, and the refusal is reported. -/
theorem reported_once_refusal : ∃ s : Scheduler .fifo 1,
    Relation.ReflTransGen (Step Reported) (init .fifo 1) s ∧ s.entry (1, 7) = none ∧
      reports (1, 7) s.log = [(errorResp (1, 7) (-1), 0)] ∧ ReportedOnce s := by
  have hrun : Relation.ReflTransGen (Step Reported) (init .fifo 1) _ :=
    (((Relation.ReflTransGen.refl
      ).tail ⟨.addScheduler accepting ⟨2, 1, 0⟩ 0,
        (by decide +kernel : FreshKey _ (.addScheduler accepting ⟨2, 1, 0⟩ 0)), rfl⟩
      ).tail ⟨.addScheduler busy ⟨1, 7, 0⟩ 0,
        (by decide +kernel : FreshKey _ (.addScheduler busy ⟨1, 7, 0⟩ 0)), rfl⟩
      ).tail ⟨.finishJobs refusing 0 ⟨2, 1, 5, 0⟩, Or.inl (by decide +kernel), rfl⟩
  exact ⟨_, hrun, by decide +kernel, by decide +kernel, reported_once hrun⟩

/-- A key is used only once in the whole run. -/
def NeverUsed (s : Scheduler p n) : Op n → Prop
  | .addScheduler _ r _ => wasAdded r.key s.log = false
  | _ => True

instance (s : Scheduler p n) : ∀ op, Decidable (NeverUsed s op)
  | .addScheduler _ r _ => inferInstanceAs (Decidable (wasAdded r.key s.log = false))
  | .finishJobs .. | .stopTaskInference .. | .stopAllInferenceForProcess ..
  | .clearRunningRequests .. => isTrue trivial

/-- The early returns of `FinishJobs` lose the report of a refused request: after a response for an
    unknown process (first run, every key used once), and after the second response of a request
    that a stale queue entry got submitted twice (second run, every response answers a submission). -/
theorem reported_once_early_return :
    (∃ s : Scheduler .fifo 1, Relation.ReflTransGen (Step NeverUsed) (init .fifo 1) s ∧
      s.pendingErrorCallbacks = [(errorResp (1, 7) (-1), 0)] ∧ s.entry (1, 7) = none ∧
      wasAdded (1, 7) s.log = true ∧ fate (1, 7) s.log = some (.refused (-1) 0) ∧
      reports (1, 7) s.log = []) ∧
    ∃ s : Scheduler .fifo 1,
      Relation.ReflTransGen (Step fun s op => Guarded s op ∧ AnswersOnce s op) (init .fifo 1) s ∧
      s.pendingErrorCallbacks = [(errorResp (3, 5) (-1), 0)] ∧ s.entry (3, 5) = none ∧
      wasAdded (3, 5) s.log = true ∧ fate (3, 5) s.log = some (.refused (-1) 0) ∧
      reports (3, 5) s.log = [] := by
  have hrun₁ : Relation.ReflTransGen (Step NeverUsed) (init .fifo 1) _ :=
    (((Relation.ReflTransGen.refl
      ).tail ⟨.addScheduler accepting ⟨2, 1, 0⟩ 0, by decide +kernel, rfl⟩
      ).tail ⟨.addScheduler busy ⟨1, 7, 0⟩ 0, by decide +kernel, rfl⟩
      ).tail ⟨.finishJobs refusing 0 ⟨9, 9, 5, 0⟩, by decide +kernel, rfl⟩
  have hrun₂ : Relation.ReflTransGen
      (Step fun s op => Guarded s op ∧ AnswersOnce s op) (init .fifo 1) _ :=
    ((((((((Relation.ReflTransGen.refl
      ).tail ⟨.addScheduler accepting ⟨2, 1, 0⟩ 0, by decide +kernel, rfl⟩
      ).tail ⟨.addScheduler busy ⟨1, 7, 0⟩ 0, by decide +kernel, rfl⟩
      ).tail ⟨.stopTaskInference 1 0 0, by decide +kernel, rfl⟩
      ).tail ⟨.addScheduler accepting ⟨1, 7, 0⟩ 0, by decide +kernel, rfl⟩
      ).tail ⟨.finishJobs accepting 0 ⟨2, 1, 5, 0⟩, by decide +kernel, rfl⟩
      ).tail ⟨.addScheduler busy ⟨3, 5, 0⟩ 0, by decide +kernel, rfl⟩
      ).tail ⟨.finishJobs busy 0 ⟨1, 7, 5, 0⟩, by decide +kernel, rfl⟩
      ).tail ⟨.finishJobs refusing 0 ⟨1, 7, 5, 0⟩, by decide +kernel, rfl⟩
  exact ⟨⟨_, hrun₁, by decide +kernel⟩, ⟨_, hrun₂, by decide +kernel⟩⟩

end DxRt.Scheduler
