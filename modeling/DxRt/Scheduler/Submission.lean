import DxRt.Scheduler.Load

/-! At-most-once submission.

    A stop removes pending requests from the map but leaves their keys in the queues, and
    `doInference` goes by the key alone. As long as a key is added only when it is in no queue, the
    queue entry of a key and its map entry belong to the same request: a request that is no longer
    pending is in no queue, so it is not submitted again. -/

namespace DxRt.Scheduler
variable {p : Policy} {n : ℕ} {s t : Scheduler p n} {d : Fin n}

/-- How often a device took request `k` since it was last added. -/
def accepted (k : Key) : List (Event n) → ℕ
  | [] => 0
  | .addScheduler _ r :: log => if r.key = k then 0 else accepted k log
  | .inferenceRequest _ k' _ _ .ok :: log => if k' = k then accepted k log + 1 else accepted k log
  | _ :: log => accepted k log

theorem accepted_neutral {k : Key} : ∀ {l : List (Event n)} (log : List (Event n)),
    (∀ ev ∈ l, Neutral ev) → accepted k (l ++ log) = accepted k log
  | [], _, _ => rfl
  | ev :: l, log, h => by
    have hrest := accepted_neutral (k := k) log fun x hx => h x (List.mem_cons_of_mem _ hx)
    cases ev with
    | addScheduler | inferenceRequest | finishJobs => exact absurd (h _ (List.mem_cons_self ..)) id
    | stopped | rejected | onInferenceComplete | onTaskDrained => exact hrest

/-- Every submission in the log was one of a pending request. -/
def OnlyPending (log : List (Event n)) : Prop :=
  ∀ d k taskId state retval, .inferenceRequest d k taskId state retval ∈ log → state = .pending

theorem onlyPending_neutral {l log : List (Event n)} (hl : ∀ ev ∈ l, Neutral ev)
    (h : OnlyPending log) : OnlyPending (l ++ log) := by
  intro d k taskId state retval hmem
  rcases List.mem_append.mp hmem with hmem | hmem
  · exact absurd (hl _ hmem) id
  · exact h d k taskId state retval hmem

/-- The queue entry of a key belongs to the request in the map. -/
structure SubmitInv (s : Scheduler p n) : Prop where
  settled : ∀ k e, s.entry k = some e → e.state ≠ .pending → ∀ d, k ∉ s.queued d
  single : ∀ k e, s.entry k = some e → ∀ d, (s.queued d).count k ≤ 1
  oneDevice : ∀ k e, s.entry k = some e → ∀ d d', k ∈ s.queued d → k ∈ s.queued d' → d = d'
  unsent : ∀ k e, s.entry k = some e → e.state = .pending → accepted k s.log = 0
  once : ∀ k, accepted k s.log ≤ 1
  onlyPending : OnlyPending s.log

/-- The invariant survives shorter queues and requests that leave the map or are cancelled. -/
theorem SubmitInv.mono (h : SubmitInv s) (hqueued : ∀ d, t.queued d ≤ s.queued d)
    (hentry : ∀ k e', t.entry k = some e' →
      ∃ e, s.entry k = some e ∧ (e.state = .pending ↔ e'.state = .pending))
    (haccepted : ∀ k, accepted k t.log = accepted k s.log) (hlog : OnlyPending t.log) :
    SubmitInv t where
  settled k e' he' hst d hmem := by
    obtain ⟨e, he, hiff⟩ := hentry k e' he'
    exact h.settled k e he (fun hp => hst (hiff.mp hp)) d (Multiset.mem_of_le (hqueued d) hmem)
  single k e' he' d := by
    obtain ⟨e, he, _⟩ := hentry k e' he'
    exact (Multiset.count_le_of_le k (hqueued d)).trans (h.single k e he d)
  oneDevice k e' he' d d' hd hd' := by
    obtain ⟨e, he, _⟩ := hentry k e' he'
    exact h.oneDevice k e he d d' (Multiset.mem_of_le (hqueued d) hd)
      (Multiset.mem_of_le (hqueued d') hd')
  unsent k e' he' hst := by
    obtain ⟨e, he, hiff⟩ := hentry k e' he'
    rw [haccepted]
    exact h.unsent k e he (hiff.mpr hst)
  once k := by rw [haccepted]; exact h.once k
  onlyPending := hlog

theorem queued_pop_le {q : DeviceQueue p} {k : Key} (hpop : s.queued d = k ::ₘ q.contents)
    (d' : Fin n) : (s.setQueue d q).queued d' ≤ s.queued d' := by
  rw [queued_setQueue]
  split_ifs with h
  · rw [h, hpop]
    exact Multiset.le_cons_self _ _
  · exact le_refl _

/-- A request that is taken from a queue with an entry in the map is pending, and it was in this
    queue once and in no other. -/
theorem SubmitInv.popped (h : SubmitInv s) {q : DeviceQueue p} {k : Key} {e : RequestEntry n}
    (hpop : s.queued d = k ::ₘ q.contents) (hentry : s.entry k = some e) :
    e.state = .pending ∧ ∀ d', k ∉ (s.setQueue d q).queued d' := by
  have hmem : k ∈ s.queued d := hpop ▸ Multiset.mem_cons_self k _
  refine ⟨?_, fun d' hd' => ?_⟩
  · by_contra hst
    exact h.settled k e hentry hst d hmem
  · have hdev : d = d' := h.oneDevice k e hentry d d' hmem
      (Multiset.mem_of_le (queued_pop_le hpop d') hd')
    subst hdev
    rw [queued_setQueue, if_pos rfl] at hd'
    have hcount := h.single k e hentry d
    rw [hpop, Multiset.count_cons_self] at hcount
    have hpos := Multiset.count_pos.mpr hd'
    omega

/-- Giving a popped request to a device. -/
theorem SubmitInv.submitted (h : SubmitInv s) {q : DeviceQueue p} {k : Key} {e : RequestEntry n}
    {retval : Retval} (hpop : s.queued d = k ::ₘ q.contents) (hentry : s.entry k = some e)
    (ht : Submitted (s.setQueue d q) d k e retval t) : SubmitInv t := by
  obtain ⟨hpending, hgone⟩ := h.popped hpop hentry
  have hacc₀ := h.unsent k e hentry hpending
  have hlog : OnlyPending t.log := by
    intro d' k' taskId state retval' hmem
    rw [ht.log] at hmem
    rcases List.mem_cons.mp hmem with heq | hmem
    · cases heq
      exact hpending
    · exact h.onlyPending d' k' taskId state retval' hmem
  by_cases hret : retval = .ok
  · -- accepted: the key is in no queue any more
    subst hret
    have hq : ∀ d', t.queued d' = (s.setQueue d q).queued d' := fun d' => by simp [ht.queued]
    have hacc : ∀ k', accepted k' t.log = if k = k' then accepted k' s.log + 1 else accepted k' s.log :=
      fun k' => by rw [ht.log]; rfl
    have hle : ∀ d', t.queued d' ≤ s.queued d' := fun d' => hq d' ▸ queued_pop_le hpop d'
    refine ⟨fun k' e' he' hst d' hmem => ?_, fun k' e' he' d' => ?_,
      fun k' e' he' d₁ d₂ h₁ h₂ => ?_, fun k' e' he' hst => ?_, fun k' => ?_, hlog⟩
    all_goals by_cases hk : k' = k
    · subst hk
      exact hgone d' (hq d' ▸ hmem)
    · rw [ht.entry, if_neg hk] at he'
      exact h.settled k' e' he' hst d' (Multiset.mem_of_le (hle d') hmem)
    · subst hk
      rw [hq d', Multiset.count_eq_zero_of_notMem (hgone d')]
      exact Nat.zero_le _
    · rw [ht.entry, if_neg hk] at he'
      exact (Multiset.count_le_of_le k' (hle d')).trans (h.single k' e' he' d')
    · subst hk
      exact absurd (hq d₁ ▸ h₁) (hgone d₁)
    · rw [ht.entry, if_neg hk] at he'
      exact h.oneDevice k' e' he' d₁ d₂ (Multiset.mem_of_le (hle d₁) h₁)
        (Multiset.mem_of_le (hle d₂) h₂)
    · subst hk
      rw [ht.entry, if_pos rfl, if_pos rfl] at he'
      cases he'
      cases hst
    · rw [ht.entry, if_neg hk] at he'
      rw [hacc, if_neg (Ne.symm hk)]
      exact h.unsent k' e' he' hst
    · subst hk
      rw [hacc, if_pos rfl, hacc₀]
    · rw [hacc, if_neg (Ne.symm hk)]
      exact h.once k'
  · -- busy: the key is where it was before
    have hq : ∀ d', t.queued d' = s.queued d' := by
      intro d'
      rw [ht.queued, queued_setQueue, if_pos rfl, ← hpop]
      by_cases hd : d' = d
      · rw [hd, if_pos ⟨rfl, hret⟩]
      · rw [if_neg fun hc => hd hc.1, queued_setQueue, if_neg hd]
    have hacc : ∀ k', accepted k' t.log = accepted k' s.log := by
      intro k'
      rw [ht.log]
      cases retval with
      | ok => exact absurd rfl hret
      | ebusy | eagain => rfl
    refine h.mono (fun d' => (hq d').le) (fun k' e' he' => ?_) hacc hlog
    rw [ht.entry] at he'
    by_cases hk : k' = k
    · subst hk
      rw [if_pos rfl, if_neg hret] at he'
      cases he'
      exact ⟨e, hentry, by simp [hpending]⟩
    · rw [if_neg hk] at he'
      exact ⟨e', he', Iff.rfl⟩

theorem SubmitInv.skipped (h : SubmitInv s) {q : DeviceQueue p} {k : Key}
    (hpop : s.queued d = k ::ₘ q.contents) : SubmitInv (s.setQueue d q) :=
  h.mono (queued_pop_le hpop) (fun _ e he => ⟨e, he, Iff.rfl⟩) (fun _ => rfl) h.onlyPending

theorem SubmitInv.rejected (h : SubmitInv s) {q : DeviceQueue p} {k : Key} {status : ℤ}
    (hpop : s.queued d = k ::ₘ q.contents)
    (ht : Rejected (s.setQueue d q) d k status t) : SubmitInv t := by
  have hlog : OnlyPending t.log := by
    rw [ht.log]
    refine onlyPending_neutral (l := [_]) (fun ev hev => ?_) h.onlyPending
    rw [List.mem_singleton.mp hev]
    trivial
  refine (h.skipped hpop).mono (fun d' => by rw [queued, queued, ht.queues]) (fun k' e' he' => ?_)
    (fun k' => by rw [ht.log]; rfl) hlog
  rw [ht.entry] at he'
  split_ifs at he'
  exact ⟨e', he', Iff.rfl⟩

/-- `schedule` keeps the invariant, and it leaves alone every request that is not pending. -/
theorem Schedules.submitInv (h : Schedules d s t) (hs : SubmitInv s) :
    SubmitInv t ∧ ∀ k e, s.entry k = some e → e.state ≠ .pending → t.entry k = some e := by
  induction h with
  | idle => exact ⟨hs, fun _ _ he _ => he⟩
  | skip hpop _ _ ih => exact ih (hs.skipped hpop)
  | @reject s s' t k q e status hpop hentry _ hs' _ ih =>
    obtain ⟨ht, hkeep⟩ := ih (hs.rejected hpop hs')
    refine ⟨ht, fun k' e' he' hst => hkeep k' e' ?_ hst⟩
    rw [hs'.entry, if_neg]
    · exact he'
    · rintro rfl
      exact hs.settled k' e' he' hst d (hpop ▸ Multiset.mem_cons_self k' _)
  | @submit s t k q e retval hpop hentry ht =>
    refine ⟨hs.submitted hpop hentry ht, fun k' e' he' hst => ?_⟩
    rw [ht.entry, if_neg]
    · exact he'
    · rintro rfl
      exact hs.settled k' e' he' hst d (hpop ▸ Multiset.mem_cons_self k' _)

/-! ### Runs -/

/-- The guard of `HandleInferenceRequest`: a key is added only when it is not in the map. -/
def Guarded (s : Scheduler p n) : Op n → Prop
  | .addScheduler _ r _ => s.hasPendingRequest r.key = false
  | _ => True

/-- A key is added only when it is neither in the map nor left over in a queue. -/
def FreshKey (s : Scheduler p n) : Op n → Prop
  | .addScheduler _ r _ => s.entry r.key = none ∧ ∀ d, r.key ∉ s.queued d
  | _ => True

theorem SubmitInv.added (h : SubmitInv s) {r : Request}
    (hfree : ∀ d, r.key ∉ s.queued d) (ht : Added s r d t) : SubmitInv t := by
  have hother : ∀ k, k ≠ r.key → ∀ d', (t.queued d').count k = (s.queued d').count k := by
    intro k hk d'
    rw [ht.queued]
    split_ifs with hd
    · rw [hd, Multiset.count_cons_of_ne hk]
    · rfl
  have hown : ∀ d', r.key ∈ t.queued d' → d' = d := by
    intro d' hmem
    by_contra hd
    rw [ht.queued, if_neg hd] at hmem
    exact hfree d' hmem
  have hmem : ∀ k, k ≠ r.key → ∀ d', k ∈ t.queued d' → k ∈ s.queued d' := by
    intro k hk d' hk'
    exact Multiset.count_pos.mp (hother k hk d' ▸ Multiset.count_pos.mpr hk')
  have hacc : ∀ k, accepted k t.log = if r.key = k then 0 else accepted k s.log :=
    fun k => by rw [ht.log]; rfl
  refine ⟨fun k e he hst d' hk => ?_, fun k e he d' => ?_, fun k e he d₁ d₂ h₁ h₂ => ?_,
    fun k e he hst => ?_, fun k => ?_, fun d' k taskId state retval hev => ?_⟩
  · rw [ht.entry] at he
    split_ifs at he with hkey
    · cases he
      exact hst rfl
    · exact h.settled k e he hst d' (hmem k hkey d' hk)
  · rw [ht.entry] at he
    split_ifs at he with hkey
    · rw [hkey, ht.queued]
      split_ifs
      · rw [Multiset.count_cons_self, Multiset.count_eq_zero_of_notMem (hfree d)]
      · rw [Multiset.count_eq_zero_of_notMem (hfree d')]
        exact Nat.zero_le _
    · rw [hother k hkey d']
      exact h.single k e he d'
  · rw [ht.entry] at he
    split_ifs at he with hkey
    · rw [hown d₁ (hkey ▸ h₁), hown d₂ (hkey ▸ h₂)]
    · exact h.oneDevice k e he d₁ d₂ (hmem k hkey d₁ h₁) (hmem k hkey d₂ h₂)
  · rw [hacc]
    rw [ht.entry] at he
    by_cases hkey : k = r.key
    · rw [if_pos hkey.symm]
    · rw [if_neg hkey] at he
      rw [if_neg (Ne.symm hkey)]
      exact h.unsent k e he hst
  · rw [hacc]
    split_ifs
    · exact Nat.zero_le _
    · exact h.once k
  · rw [ht.log] at hev
    rcases List.mem_cons.mp hev with heq | hev
    · cases heq
    · exact h.onlyPending d' k taskId state retval hev

theorem SubmitInv.same (h : SubmitInv s) (hqueues : t.queues = s.queues)
    (hentry : ∀ k e', t.entry k = some e' →
      ∃ e, s.entry k = some e ∧ (e.state = .pending ↔ e'.state = .pending))
    (hlog : ∃ l, t.log = l ++ s.log ∧ ∀ ev ∈ l, Neutral ev) : SubmitInv t := by
  obtain ⟨l, hlog, hl⟩ := hlog
  refine h.mono (fun d => by rw [queued, queued, hqueues]) hentry (fun k => ?_) ?_
  · rw [hlog, accepted_neutral _ hl]
  · rw [hlog]
    exact onlyPending_neutral hl h.onlyPending

theorem SubmitInv.flushed {extra : List (Event n)} (h : SubmitInv s) (hf : Flushed s extra t)
    (hextra : ∀ ev ∈ extra, Neutral ev) : SubmitInv t :=
  h.same hf.queues (fun k e he => ⟨e, hf.entry k ▸ he, Iff.rfl⟩) (hf.neutral hextra)

theorem SubmitInv.answered {response : Response} (h : SubmitInv s)
    (hans : Answered s d response t) : SubmitInv t := by
  refine h.mono (fun d => by rw [queued, queued, hans.queues]) (fun k e he => ?_)
    (fun k => by rw [hans.log]; rfl) ?_
  · rw [hans.entry] at he
    split_ifs at he
    exact ⟨e, he, Iff.rfl⟩
  · intro d' k taskId state retval hev
    rw [hans.log] at hev
    rcases List.mem_cons.mp hev with heq | hev
    · cases heq
    · exact h.onlyPending d' k taskId state retval hev

theorem SubmitInv.stopped (h : SubmitInv s) (hstop : Stopped s t) : SubmitInv t := by
  refine h.same hstop.queues (fun k e' he' => ?_) hstop.neutral
  rcases hstop.entry k with hsame | ⟨e, he, ⟨hst, hnew⟩ | ⟨hst, hnew⟩⟩
  · exact ⟨e', hsame ▸ he', Iff.rfl⟩
  · rw [hnew] at he'
    cases he'
    exact ⟨e, he, by simp [hst]⟩
  · rw [hnew] at he'
    cases he'

/-- Cancelled, or no longer in the map. -/
def CancelledOrGone (s : Scheduler p n) (k : Key) : Prop :=
  ∀ e, s.entry k = some e → e.state = .cancelled

theorem CancelledOrGone.schedules {k : Key} (h : CancelledOrGone s k) (hs : SubmitInv s)
    (hsched : Schedules d s t) : CancelledOrGone t k := by
  intro e' he'
  cases he : s.entry k with
  | none =>
    rw [hsched.entry_none he] at he'
    cases he'
  | some e =>
    have hnp : e.state ≠ .pending := by rw [h e he]; decide
    rw [(hsched.submitInv hs).2 k e he hnp] at he'
    cases he'
    exact h _ he

theorem CancelledOrGone.of_entry {k : Key} (h : CancelledOrGone s k)
    (ht : t.entry k = none ∨ t.entry k = s.entry k) : CancelledOrGone t k := by
  intro e he
  rcases ht with ht | ht
  · rw [ht] at he
    cases he
  · exact h e (ht ▸ he)

theorem Answered.entry_cases {response : Response} (h : Answered s d response t) (k : Key) :
    t.entry k = none ∨ t.entry k = s.entry k := by
  rw [h.entry]
  split_ifs
  · exact Or.inl rfl
  · exact Or.inr rfl

/-- What one call keeps: the invariant, and that a cancelled request stays cancelled until it
    leaves the map. -/
theorem submitInv_exec (h : SubmitInv s) {op : Op n} (hop : FreshKey s op) :
    SubmitInv (s.exec op) ∧ ∀ k e, s.entry k = some e → e.state = .cancelled →
      CancelledOrGone (s.exec op) k := by
  have hgone : ∀ k e, s.entry k = some e → e.state = .cancelled → CancelledOrGone s k := by
    intro k e he hc e' he'
    rw [he] at he'
    cases he'
    exact hc
  cases exec_effect s op with
  | @added env r d s₁ s₂ _ hadded hsched hflush =>
    have hs₁ : SubmitInv s₁ := h.added hop.2 hadded
    have hs₂ : SubmitInv s₂ := by
      rcases hsched with ⟨_, hsched⟩ | ⟨_, rfl⟩
      · exact (hsched.submitInv hs₁).1
      · exact hs₁
    refine ⟨hs₂.flushed hflush (by simp), fun k e he hc => ?_⟩
    have hk : k ≠ r.key := by
      rintro rfl
      rw [hop.1] at he
      cases he
    have hc₁ : CancelledOrGone s₁ k :=
      (hgone k e he hc).of_entry (Or.inr (by rw [hadded.entry, if_neg hk]))
    have hc₂ : CancelledOrGone s₂ k := by
      rcases hsched with ⟨_, hsched⟩ | ⟨_, rfl⟩
      · exact hc₁.schedules hs₁ hsched
      · exact hc₁
    exact hc₂.of_entry (Or.inr (hflush.entry k))
  | missed _ hanswered hsched _ =>
    have hs₁ := h.answered hanswered
    refine ⟨(hsched.submitInv hs₁).1, fun k e he hc => ?_⟩
    exact ((hgone k e he hc).of_entry (hanswered.entry_cases k)).schedules hs₁ hsched
  | finished _ hanswered hsched hflush =>
    have hs₁ := h.answered hanswered
    refine ⟨(hsched.submitInv hs₁).1.flushed hflush (neutral_finishEvents _ _ _ _), ?_⟩
    intro k e he hc
    have hc₂ := ((hgone k e he hc).of_entry (hanswered.entry_cases k)).schedules hs₁ hsched
    exact hc₂.of_entry (Or.inr (hflush.entry k))
  | stopped hstop =>
    refine ⟨h.stopped hstop, fun k e he hc => (hgone k e he hc).of_entry ?_⟩
    rcases hstop.entry k with hsame | ⟨e₁, he₁, ⟨hst, _⟩ | ⟨_, hnew⟩⟩
    · exact Or.inr hsame
    · rw [he] at he₁
      cases he₁
      rw [hc] at hst
      cases hst
    · exact Or.inl hnew

theorem submitInv_step (s t : Scheduler p n) (hst : Step FreshKey s t) (h : SubmitInv s) :
    SubmitInv t := by
  obtain ⟨op, hop, rfl⟩ := hst
  exact (submitInv_exec h hop).1

theorem submitInv_init (p : Policy) (n : ℕ) : SubmitInv (init p n) := by
  have hnone : ∀ k, (init p n).entry k = none := fun _ => rfl
  have hno : ∀ {k e}, (init p n).entry k ≠ some e := fun he => by rw [hnone] at he; cases he
  exact ⟨fun _ _ he => absurd he hno, fun _ _ he => absurd he hno, fun _ _ he => absurd he hno,
    fun _ _ he => absurd he hno, fun _ => Nat.zero_le _, fun _ _ _ _ _ hmem => absurd hmem List.not_mem_nil⟩

/-- At-most-once submission, in one state and over the next call. -/
structure AtMostOnce (s : Scheduler p n) : Prop where
  /-- Since it was last added, no request was taken by a device more than once. -/
  once : ∀ k, accepted k s.log ≤ 1
  /-- No running or cancelled request was submitted. -/
  onlyPending : ∀ d k taskId state retval,
    .inferenceRequest d k taskId state retval ∈ s.log → state = .pending
  /-- A cancelled request stays so until it leaves the map. -/
  cancelled : ∀ op, FreshKey s op → ∀ k e, s.entry k = some e → e.state = .cancelled →
    ∀ e', (s.exec op).entry k = some e' → e'.state = .cancelled

/-- In every run that adds a key only when it is neither in the map nor in a queue, each request is
    submitted successfully at most once, only when pending, and cancellation is final. -/
theorem at_most_once {s : Scheduler p n}
    (hrun : Relation.ReflTransGen (Step FreshKey) (init p n) s) : AtMostOnce s := by
  have h : SubmitInv s := Run.invariant submitInv_step hrun (submitInv_init p n)
  exact ⟨h.once, h.onlyPending, fun op hop => (submitInv_exec h hop).2⟩

instance (s : Scheduler p n) : ∀ op, Decidable (FreshKey s op)
  | .addScheduler _ r _ => inferInstanceAs (Decidable (s.entry r.key = none ∧ ∀ d, r.key ∉ s.queued d))
  | .finishJobs .. | .stopTaskInference .. | .stopAllInferenceForProcess ..
  | .clearRunningRequests .. => isTrue trivial

instance (s : Scheduler p n) : ∀ op, Decidable (Guarded s op)
  | .addScheduler _ r _ => inferInstanceAs (Decidable (s.hasPendingRequest r.key = false))
  | .finishJobs .. | .stopTaskInference .. | .stopAllInferenceForProcess ..
  | .clearRunningRequests .. => isTrue trivial

/-- A device that is busy. -/
def busy : Env := fun _ => ⟨true, false, .ebusy, 0⟩

/-- A busy device, a cancelled process, and its key added again once the queue has let go of it. -/
theorem at_most_once_two_processes : ∃ s : Scheduler .fifo 1,
    Relation.ReflTransGen (Step FreshKey) (init .fifo 1) s ∧ accepted (1, 7) s.log = 1 ∧
      AtMostOnce s := by
  have hrun : Relation.ReflTransGen (Step FreshKey) (init .fifo 1) _ :=
    (((((Relation.ReflTransGen.refl
      ).tail ⟨.addScheduler accepting ⟨2, 1, 0⟩ 0, by decide +kernel, rfl⟩
      ).tail ⟨.addScheduler busy ⟨1, 7, 0⟩ 0, by decide +kernel, rfl⟩
      ).tail ⟨.stopTaskInference 1 0 0, by decide +kernel, rfl⟩
      ).tail ⟨.finishJobs accepting 0 ⟨2, 1, 5, 0⟩, by decide +kernel, rfl⟩
      ).tail ⟨.addScheduler accepting ⟨1, 7, 0⟩ 0, by decide +kernel, rfl⟩
  exact ⟨_, hrun, by decide +kernel, at_most_once hrun⟩

/-- Request 7 of process 1 meets a busy device, is stopped and added again: the guard only looks at
    the map, so the key is queued twice and the same request is taken twice. -/
theorem at_most_once_stale_key : ∃ s : Scheduler .fifo 1,
    Relation.ReflTransGen (Step Guarded) (init .fifo 1) s ∧ accepted (1, 7) s.log = 2 ∧
      .inferenceRequest 0 (1, 7) 0 .running .ok ∈ s.log := by
  have hrun : Relation.ReflTransGen (Step Guarded) (init .fifo 1) _ :=
    (((((Relation.ReflTransGen.refl
      ).tail ⟨.addScheduler accepting ⟨2, 1, 0⟩ 0, by decide +kernel, rfl⟩
      ).tail ⟨.addScheduler busy ⟨1, 7, 0⟩ 0, by decide +kernel, rfl⟩
      ).tail ⟨.stopTaskInference 1 0 0, by decide +kernel, rfl⟩
      ).tail ⟨.addScheduler accepting ⟨1, 7, 0⟩ 0, by decide +kernel, rfl⟩
      ).tail ⟨.finishJobs accepting 0 ⟨2, 1, 5, 0⟩, by decide +kernel, rfl⟩
  exact ⟨_, hrun, by decide +kernel, by decide +kernel⟩

end DxRt.Scheduler
