import DxRt.Lib.Run
import DxRt.Scheduler.Spec

/-! Device load accounting.

    The submissions a device has accepted and not yet answered are read off the log
    (`outstanding`). `schedule` submits at most one request, and a device that is busy gives its
    load back at once, so in every state between calls the load counter of a device is the number
    of its outstanding submissions. -/

namespace DxRt.Scheduler
variable {p : Policy} {n : ℕ} {s t : Scheduler p n} {d : Fin n}

/-- Accepted submissions to `d` whose response has not been delivered. -/
def outstanding (d : Fin n) : List (Event n) → Multiset Key
  | [] => 0
  | .inferenceRequest d' k _ _ .ok :: log =>
    if d' = d then k ::ₘ outstanding d log else outstanding d log
  | .finishJobs d' response :: log =>
    if d' = d then (outstanding d log).erase response.key else outstanding d log
  | _ :: log => outstanding d log

/-- Calls of the listener. -/
def Callback : Event n → Prop
  | .onInferenceComplete .. | .onTaskDrained .. => True
  | _ => False

/-- Calls of the listener, and requests that were stopped or refused. -/
def Neutral : Event n → Prop
  | .stopped .. | .rejected .. | .onInferenceComplete .. | .onTaskDrained .. => True
  | _ => False

theorem Callback.neutral {ev : Event n} (h : Callback ev) : Neutral ev := by
  cases ev with
  | onInferenceComplete | onTaskDrained => trivial
  | addScheduler | stopped | rejected | inferenceRequest | finishJobs => cases h

theorem outstanding_neutral : ∀ {l : List (Event n)} (log : List (Event n)),
    (∀ ev ∈ l, Neutral ev) → outstanding d (l ++ log) = outstanding d log
  | [], _, _ => rfl
  | ev :: l, log, h => by
    have hrest := outstanding_neutral log fun x hx => h x (List.mem_cons_of_mem _ hx)
    cases ev with
    | addScheduler | inferenceRequest | finishJobs => exact absurd (h _ (List.mem_cons_self ..)) id
    | stopped | rejected | onInferenceComplete | onTaskDrained => exact hrest

theorem callback_completions (deferred : List (Response × Fin n)) :
    ∀ ev ∈ completions deferred, Callback ev := by
  intro ev hev
  obtain ⟨cb, _, rfl⟩ := List.mem_map.mp (List.mem_reverse.mp hev)
  trivial

theorem callback_finishEvents (s₁ : Scheduler p n) (d : Fin n) (response : Response)
    (e : RequestEntry n) : ∀ ev ∈ finishEvents s₁ d response e, Callback ev := by
  intro ev hev
  rcases List.mem_append.mp hev with hev | hev
  · split_ifs at hev
    · cases hev
    · rw [List.mem_singleton.mp hev]; trivial
  · split_ifs at hev
    · rw [List.mem_singleton.mp hev]; trivial
    · cases hev

theorem neutral_finishEvents (s₁ : Scheduler p n) (d : Fin n) (response : Response)
    (e : RequestEntry n) : ∀ ev ∈ finishEvents s₁ d response e, Neutral ev := fun ev hev =>
  (callback_finishEvents s₁ d response e ev hev).neutral

theorem Flushed.neutral {extra : List (Event n)} (h : Flushed s extra t)
    (hextra : ∀ ev ∈ extra, Neutral ev) :
    ∃ l, t.log = l ++ s.log ∧ ∀ ev ∈ l, Neutral ev := by
  refine ⟨_, h.log, fun ev hev => ?_⟩
  rcases List.mem_append.mp hev with hev | hev
  · exact hextra ev hev
  · exact (callback_completions _ ev hev).neutral

theorem Stopped.neutral (h : Stopped s t) : ∃ l, t.log = l ++ s.log ∧ ∀ ev ∈ l, Neutral ev := by
  obtain ⟨ks, hlog, _⟩ := h.log
  refine ⟨_, hlog, fun ev hev => ?_⟩
  obtain ⟨k, _, rfl⟩ := List.mem_map.mp hev
  trivial

theorem Flushed.outstanding {extra : List (Event n)} (h : Flushed s extra t)
    (hextra : ∀ ev ∈ extra, Neutral ev) (d : Fin n) :
    outstanding d t.log = outstanding d s.log := by
  obtain ⟨l, hlog, hl⟩ := h.neutral hextra
  rw [hlog, outstanding_neutral _ hl]

theorem Stopped.outstanding (h : Stopped s t) (d : Fin n) :
    outstanding d t.log = outstanding d s.log := by
  obtain ⟨l, hlog, hl⟩ := h.neutral
  rw [hlog, outstanding_neutral _ hl]

theorem Submitted.outstanding {k : Key} {e : RequestEntry n} {retval : Retval}
    (h : Submitted s d k e retval t) (d' : Fin n) : outstanding d' t.log =
      if d' = d ∧ retval = .ok then k ::ₘ outstanding d' s.log else outstanding d' s.log := by
  rw [h.log]
  cases retval with
  | ok => simp only [Scheduler.outstanding, and_true, eq_comm]
  | ebusy | eagain => simp [Scheduler.outstanding]

/-! ### The invariant -/

/-- Every load counter is the number of outstanding submissions. -/
def Counted (s : Scheduler p n) : Prop :=
  ∀ d, s.loads d = (outstanding d s.log).card

/-- `schedule` keeps the count and raises the load of its own device by at most one. -/
theorem Schedules.counted (h : Schedules d s t) (hs : Counted s) :
    Counted t ∧ ∀ d', t.loads d' ≤ s.loads d' + if d' = d then 1 else 0 := by
  induction h with
  | idle =>
    refine ⟨hs, fun d' => ?_⟩
    split_ifs <;> omega
  | skip _ _ _ ih => exact ih hs
  | reject _ _ _ hs' _ ih =>
    have hcount : Counted _ := fun d' => by
      rw [hs'.loads, hs'.log]
      exact hs d'
    rw [hs'.loads] at ih
    exact ih hcount
  | submit _ _ ht =>
    refine ⟨fun d' => ?_, fun d' => ?_⟩
    · rw [ht.loads, ht.outstanding]
      have hd := hs d'
      split_ifs
      · rw [Multiset.card_cons]
        push_cast
        exact congrArg (· + 1) hd
      · rw [add_zero]
        exact hd
    · rw [ht.loads]
      split_ifs with h1 h2
      · exact le_refl _
      · exact absurd h1.1 h2
      · exact Int.add_le_add_left (by decide) _
      · exact le_refl _

/-- Every response belongs to a submission that the device accepted and has not answered. -/
def AnswersOnce (s : Scheduler p n) : Op n → Prop
  | .finishJobs _ d response => response.key ∈ outstanding d s.log
  | _ => True

instance (s : Scheduler p n) : ∀ op, Decidable (AnswersOnce s op)
  | .finishJobs _ d response => inferInstanceAs (Decidable (response.key ∈ outstanding d s.log))
  | .addScheduler .. | .stopTaskInference .. | .stopAllInferenceForProcess ..
  | .clearRunningRequests .. => isTrue trivial

/-- The counters are right and no device has more than six submissions. -/
structure LoadInv (s : Scheduler p n) : Prop where
  counted : Counted s
  bounded : ∀ d, s.loads d ≤ SCHED_THRE

/-- After an allowed response one submission less is outstanding, and one less is counted. -/
theorem Answered.counted {response : Response} (h : Answered s d response t) (hs : Counted s)
    (hmem : response.key ∈ outstanding d s.log) :
    Counted t ∧ t.loads d = s.loads d - 1 ∧ ∀ d', d' ≠ d → t.loads d' = s.loads d' := by
  have hcard : 0 < (outstanding d s.log).card := Multiset.card_pos_iff_exists_mem.mpr ⟨_, hmem⟩
  have hpos : 0 < s.loads d := by
    rw [hs d]
    exact_mod_cast hcard
  have hself : t.loads d = s.loads d - 1 := by rw [h.loads, if_pos ⟨rfl, hpos⟩]
  have hother : ∀ d', d' ≠ d → t.loads d' = s.loads d' := fun d' hd => by
    rw [h.loads, if_neg fun hc => hd hc.1]
  refine ⟨fun d' => ?_, hself, hother⟩
  rw [h.log]
  by_cases hd : d' = d
  · subst hd
    rw [hself, outstanding, if_pos rfl, Multiset.card_erase_of_mem hmem, hs d',
      Nat.pred_eq_sub_one, Nat.cast_sub hcard]
    rfl
  · rw [hother d' hd, outstanding, if_neg (Ne.symm hd), hs d']

theorem LoadInv.flushed {extra : List (Event n)} (h : LoadInv s) (hf : Flushed s extra t)
    (hextra : ∀ ev ∈ extra, Neutral ev) : LoadInv t where
  counted d := by rw [hf.loads, hf.outstanding hextra]; exact h.counted d
  bounded d := by rw [hf.loads]; exact h.bounded d

/-- A response, then one round of `schedule`: the load is back at most where it was. -/
theorem LoadInv.answered {response : Response} {s₁ : Scheduler p n} (h : LoadInv s)
    (hmem : response.key ∈ outstanding d s.log) (hans : Answered s d response s₁)
    (hsched : Schedules d s₁ t) : LoadInv t := by
  obtain ⟨hcount, hself, hother⟩ := hans.counted h.counted hmem
  obtain ⟨hcount', hle⟩ := hsched.counted hcount
  refine ⟨hcount', fun d' => ?_⟩
  have hd' := hle d'
  have hb := h.bounded d'
  by_cases hd : d' = d
  · subst hd
    rw [if_pos rfl] at hd'
    omega
  · rw [if_neg hd, hother d' hd] at hd'
    omega

theorem loadInv_step (s t : Scheduler p n) (hst : Step AnswersOnce s t) (h : LoadInv s) :
    LoadInv t := by
  obtain ⟨op, hop, rfl⟩ := hst
  cases exec_effect s op with
  | added hadded hsched hflush =>
    next d s₁ s₂ =>
    have hcount : Counted s₁ := fun d' => by
      rw [hadded.loads, hadded.log]
      exact h.counted d'
    refine LoadInv.flushed ?_ hflush (by simp)
    rcases hsched with ⟨hload, hsched⟩ | ⟨_, rfl⟩
    · obtain ⟨hcount', hle⟩ := hsched.counted hcount
      refine ⟨hcount', fun d' => ?_⟩
      have hd' := hle d'
      have hb := h.bounded d'
      rw [hadded.loads] at hd'
      by_cases hd : d' = d
      · subst hd
        rw [if_pos rfl] at hd'
        omega
      · rw [if_neg hd] at hd'
        omega
    · exact ⟨hcount, fun d' => by rw [hadded.loads]; exact h.bounded d'⟩
  | missed _ hans hsched _ => exact h.answered hop hans hsched
  | finished _ hans hsched hflush =>
    exact (h.answered hop hans hsched).flushed hflush (neutral_finishEvents _ _ _ _)
  | stopped hstop =>
    exact ⟨fun d => by rw [hstop.loads, hstop.outstanding]; exact h.counted d,
      fun d => by rw [hstop.loads]; exact h.bounded d⟩

/-- Whenever no call is in progress, the load of a device is the number of its outstanding
    submissions, between 0 and 6, and no response finds it at zero. -/
theorem load_accounting {s : Scheduler p n}
    (hrun : Relation.ReflTransGen (Step AnswersOnce) (init p n) s) :
    (∀ d, s.loads d = (outstanding d s.log).card ∧ 0 ≤ s.loads d ∧ s.loads d ≤ 6) ∧
      ∀ d (response : Response), response.key ∈ outstanding d s.log → 0 < s.loads d := by
  have h : LoadInv s := Run.invariant loadInv_step hrun
    ⟨fun _ => rfl, fun _ => by simp [init, SCHED_THRE]⟩
  refine ⟨fun d => ⟨h.counted d, ?_, h.bounded d⟩, fun d response hmem => ?_⟩
  · rw [h.counted d]
    exact Int.natCast_nonneg _
  · rw [h.counted d]
    exact_mod_cast Multiset.card_pos_iff_exists_mem.mpr ⟨_, hmem⟩

/-- Answers of a listener and of devices that take every request. -/
def accepting : Env := fun _ => ⟨true, false, .ok, 0⟩

/-- Round robin on one device: two processes submit, the first one is answered. -/
theorem load_accounting_two_requests : ∃ s : Scheduler .roundRobin 1,
    Relation.ReflTransGen (Step AnswersOnce) (init .roundRobin 1) s ∧
      s.loads 0 = 1 ∧ s.loads 0 = (outstanding 0 s.log).card ∧ (2, 7) ∈ outstanding 0 s.log := by
  have hrun : Relation.ReflTransGen (Step AnswersOnce) (init .roundRobin 1) _ :=
    (((Relation.ReflTransGen.refl
      ).tail ⟨.addScheduler accepting ⟨1, 7, 0⟩ 0, trivial, rfl⟩
      ).tail ⟨.addScheduler accepting ⟨2, 7, 0⟩ 0, trivial, rfl⟩
      ).tail ⟨.finishJobs accepting 0 ⟨1, 7, 5, 0⟩, by decide +kernel, rfl⟩
  exact ⟨_, hrun, by decide +kernel, ((load_accounting hrun).1 0).1, by decide +kernel⟩

end DxRt.Scheduler
