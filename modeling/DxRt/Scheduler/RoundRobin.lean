import DxRt.Scheduler.Turns

/-! Turns of the processes in the round-robin scheduler.

    The queue of a device is followed through any sequence of `pushRequest` and `schedule`. Its cursor
    moves upwards through the processes and starts again at the first one, so from a turn of `p` on it
    cannot come back to `p` without having come to every process that waits. -/

namespace DxRt
open Scheduler

namespace RoundRobin
variable {q q' : RoundRobin} {k : Key} {p r c : ℤ} {l l' : List QueueEvent}

/-- The queue goes through these steps. -/
inductive Runs : RoundRobin → List QueueEvent → RoundRobin → Prop where
  | done {q : RoundRobin} : Runs q [] q
  | pushed {q q' : RoundRobin} {k : Key} {l : List QueueEvent} (h : Runs (q.push k.1 k.2) l q') :
      Runs q (.pushed k :: l) q'
  | handed {q q' : RoundRobin} {k : Key} {l : List QueueEvent} (hpop : q.pop.1 = some k)
      (h : Runs q.pop.2 l q') : Runs q (.handed k :: l) q'
  | idle {q q' : RoundRobin} {l : List QueueEvent} (hpop : q.pop.1 = none) (h : Runs q.pop.2 l q') :
      Runs q (.idle :: l) q'

theorem Runs.append (h : Runs q l q') {q'' : RoundRobin} (h' : Runs q' l' q'') :
    Runs q (l ++ l') q'' := by
  induction h with
  | done => exact h'
  | pushed _ ih => exact .pushed (ih h')
  | handed hpop _ ih => exact .handed hpop (ih h')
  | idle hpop _ ih => exact .idle hpop (ih h')

theorem Runs.split : ∀ {l : List QueueEvent} {q : RoundRobin}, Runs q (l ++ l') q' →
    ∃ q₁, Runs q l q₁ ∧ Runs q₁ l' q'
  | [], q, h => ⟨q, .done, h⟩
  | e :: l, q, h => by
    cases h with
    | pushed h =>
      obtain ⟨q₁, h₁, h₂⟩ := Runs.split h
      exact ⟨q₁, .pushed h₁, h₂⟩
    | handed hpop h =>
      obtain ⟨q₁, h₁, h₂⟩ := Runs.split h
      exact ⟨q₁, .handed hpop h₁, h₂⟩
    | idle hpop h =>
      obtain ⟨q₁, h₁, h₂⟩ := Runs.split h
      exact ⟨q₁, .idle hpop h₁, h₂⟩

theorem Runs.unique (h : Runs q l q') {q'' : RoundRobin} (h' : Runs q l q'') : q'' = q' := by
  induction h with
  | done =>
    cases h'
    rfl
  | pushed _ ih | handed _ _ ih | idle _ _ ih =>
    cases h'
    apply ih
    assumption

/-! ### What a step keeps -/

theorem wf_pop (h : q.Wf) : q.pop.2.Wf := DeviceQueue.wf_pop h

theorem Runs.wf (h : Runs q l q') (hq : q.Wf) : q'.Wf := by
  induction h with
  | done => exact hq
  | pushed _ ih => exact ih (wf_push hq _ _)
  | handed _ _ ih => exact ih (wf_pop hq)
  | idle _ _ ih => exact ih (wf_pop hq)

theorem pop_contents (h : q.Wf) : q.contents = (q.pop.1.elim 0 fun k => {k}) + q.pop.2.contents := by
  rcases pop_cases h with ⟨hpop, -⟩ | ⟨k, q', hpop, -, hcontents⟩
  · rw [hpop, Option.elim_none, zero_add]
  · rw [hpop, hcontents, Option.elim_some, Multiset.singleton_add]

/-- What has been pushed has been handed over or is in the queue. -/
theorem Runs.count (h : Runs q l q') (hq : q.Wf) (k : Key) :
    q.contents.count k + l.count (.pushed k) = q'.contents.count k + l.count (.handed k) := by
  induction h with
  | done => rfl
  | @pushed q q' k' l _ ih =>
    have ih := ih (wf_push hq _ _)
    rw [contents_push, Multiset.count_cons] at ih
    simp only [List.count_cons, beq_iff_eq, QueueEvent.pushed.injEq, reduceCtorEq, if_false]
    split_ifs at ih ⊢ <;> first | omega | (exfalso; tauto)
  | @handed q q' k' l hpop _ ih =>
    have ih := ih (wf_pop hq)
    rw [pop_contents hq, hpop, Option.elim_some, Multiset.count_add, Multiset.count_singleton]
    simp only [List.count_cons, beq_iff_eq, QueueEvent.handed.injEq, reduceCtorEq, if_false]
    split_ifs at ih ⊢ <;> first | omega | (exfalso; tauto)
  | @idle q q' l hpop _ ih =>
    rw [pop_contents hq, hpop, Option.elim_none, zero_add]
    simp only [List.count_cons, beq_iff_eq, reduceCtorEq, if_false, Nat.add_zero]
    exact ih (wf_pop hq)

theorem Runs.mem (h : Runs q l q') (hq : q.Wf) (hk : k ∈ q'.contents) :
    k ∈ q.contents ∨ .pushed k ∈ l := by
  have hcount := h.count hq k
  by_contra hnone
  obtain ⟨hold, hnew⟩ := not_or.mp hnone
  rw [Multiset.count_eq_zero_of_notMem hold, List.count_eq_zero_of_not_mem hnew] at hcount
  have hpos := Multiset.count_pos.mpr hk
  omega

/-! ### The cursor -/

/-- The process whose turn it is. -/
def current (q : RoundRobin) : ℤ := if q.nextProc = 0 then first q.procMap else q.nextProc

/-- A turn: the request is one of the process that the cursor names, and the cursor moves on. -/
structure Turn (q : RoundRobin) (k : Key) (q' : RoundRobin) : Prop where
  proc : k.1 = q.current
  keys : ∀ x, x ≠ k.1 → q'.procMap.contains x = q.procMap.contains x
  cursor : q'.nextProc = match q.procMap.next? k.1 with
    | some next => next.1
    | none => first q'.procMap

theorem contains_current (h : q.Wf) (hne : q.procMap.entries ≠ []) :
    q.procMap.contains q.current = true := by
  rw [current]
  split_ifs with h0
  · obtain ⟨begin, rest, hent⟩ := List.exists_cons_of_ne_nil hne
    have hbegin : first q.procMap = begin.1 := by rw [first, hent]
    have hmem : begin ∈ q.procMap.entries := by rw [hent]; exact List.mem_cons_self
    exact (SortedMap.contains_iff _ _).mpr
      ⟨begin.2, (q.procMap.find?_eq_some _ _).mpr (by rw [hbegin]; exact hmem)⟩
  · exact h.cursor.resolve_left h0

theorem pop_turn (hpop : q.pop.1 = some k) (h : q.Wf) : Turn q k q.pop.2 := by
  rw [pop] at hpop ⊢
  cases hent : q.procMap.entries with
  | nil => simp [hent] at hpop
  | cons begin rest =>
    have hcurrent : (if q.nextProc = 0 then begin.1 else q.nextProc) = q.current := by
      rw [current, first, hent]
    obtain ⟨reqs, hfind⟩ := (SortedMap.contains_iff _ _).mp
      (contains_current h (by rw [hent]; exact List.cons_ne_nil _ _))
    simp only [hent, hcurrent, hfind] at hpop ⊢
    cases reqs with
    | nil => exact absurd rfl (h.nonempty _ ((q.procMap.find?_eq_some _ _).mp hfind))
    | cons reqId reqs =>
      simp only [Option.some.injEq] at hpop
      subst hpop
      refine ⟨rfl, fun x hx => ?_, rfl⟩
      simp only [SortedMap.contains]
      split_ifs
      · rw [SortedMap.find?_erase, if_neg hx]
      · rw [SortedMap.find?_insert, if_neg hx]

/-! ### Nobody is passed over -/

/-- Going upwards from `p`, and on from the first process, one comes to `c` no later than to `r`. -/
def Before (p c r : ℤ) : Prop := if p < r then p < c ∧ c ≤ r else p < c ∨ c ≤ r

theorem not_before_self (hr : r ≠ p) : ¬ Before p p r := by
  rw [Before]
  split_ifs <;> omega

theorem first_le {m : SortedMap ℤ (List ℤ)} (h : m.contains r = true) : first m ≤ r := by
  obtain ⟨reqs, hfind⟩ := (SortedMap.contains_iff _ _).mp h
  have hmem := (m.find?_eq_some _ _).mp hfind
  rw [first]
  cases hent : m.entries with
  | nil => rw [hent] at hmem; cases hmem
  | cons begin rest =>
    have hsorted := m.sorted
    rw [hent] at hmem hsorted
    rcases List.mem_cons.mp hmem with rfl | hmem
    · exact le_rfl
    · exact ((List.pairwise_cons.mp hsorted).1 _ hmem).le

/-- The cursor that a turn leaves behind. -/
theorem Turn.before (ht : Turn q k q') (hr : q.procMap.contains r = true) (hne : r ≠ k.1)
    (hp : k.1 = p ∨ Before p k.1 r) (hpr : r ≠ p) : Before p q'.nextProc r := by
  have hr' : q'.procMap.contains r = true := (ht.keys r hne).trans hr
  have hfirst := first_le hr'
  rw [ht.cursor]
  cases hnext : q.procMap.next? k.1 with
  | some next =>
    obtain ⟨hlt, hle⟩ := SortedMap.next?_le hnext
    have hle := hle r hr
    simp only [Before] at hp ⊢
    split_ifs at hp ⊢ <;> omega
  | none =>
    have hlast := SortedMap.next?_eq_none.mp hnext r hr
    simp only [Before] at hp ⊢
    split_ifs at hp ⊢ <;> omega

theorem contains_push (q : RoundRobin) (procId reqId : ℤ) (h : q.procMap.contains r = true) :
    (q.push procId reqId).procMap.contains r = true := by
  rw [push, SortedMap.contains, SortedMap.find?_insert]
  split_ifs
  · rfl
  · exact h

/-- `r` has a request in the queue, and the cursor comes to it before it comes to `p`. -/
structure Awaits (q : RoundRobin) (p r : ℤ) : Prop where
  queued : q.procMap.contains r = true
  cursor : Before p q.nextProc r

theorem Awaits.current (h : q.Awaits p r) (hp : 0 < p) : Before p q.current r := by
  have hfirst := first_le h.queued
  have hcursor := h.cursor
  rw [RoundRobin.current]
  split_ifs with h0
  · rw [h0] at hcursor
    simp only [Before] at hcursor ⊢
    split_ifs at hcursor ⊢ <;> omega
  · exact hcursor

theorem pop_idle (hpop : q.pop.1 = none) (hq : q.Wf) : q.pop.2 = q := by
  rcases pop_cases hq with ⟨heq, -⟩ | ⟨k, q', heq, -⟩
  · rw [heq]
  · rw [heq] at hpop
    cases hpop

/-- Until `r` has its turn, the cursor stays before it. -/
theorem Awaits.runs (h : Runs q l q') (hq : q.Wf) (ha : q.Awaits p r) (hp : 0 < p) (hpr : r ≠ p) :
    (∃ reqId, .handed (r, reqId) ∈ l) ∨ q'.Awaits p r := by
  induction h with
  | done => exact Or.inr ha
  | pushed _ ih =>
    exact (ih (wf_push hq _ _) ⟨contains_push _ _ _ ha.queued, ha.cursor⟩).imp_left
      fun ⟨reqId, hmem⟩ => ⟨reqId, List.mem_cons_of_mem _ hmem⟩
  | @handed q q' k l hpop _ ih =>
    have ht := pop_turn hpop hq
    have hbefore : Before p k.1 r := by
      rw [ht.proc]
      exact ha.current hp
    by_cases hk : r = k.1
    · exact Or.inl ⟨k.2, by rw [hk]; exact List.mem_cons_self⟩
    · have hnext : q.pop.2.Awaits p r :=
        ⟨(ht.keys r hk).trans ha.queued, ht.before ha.queued hk (Or.inr hbefore) hpr⟩
      exact (ih (wf_pop hq) hnext).imp_left
        fun ⟨reqId, hmem⟩ => ⟨reqId, List.mem_cons_of_mem _ hmem⟩
  | idle hpop _ ih =>
    rw [pop_idle hpop hq] at ih
    exact (ih hq ha).imp_left fun ⟨reqId, hmem⟩ => ⟨reqId, List.mem_cons_of_mem _ hmem⟩

/-- Between two turns of one process, every other process that waits has a turn. -/
theorem turn_between {k k' : Key} (h : Runs q (.handed k :: (l ++ [.handed k'])) q') (hq : q.Wf)
    (hp : 0 < k.1) (hk : k'.1 = k.1) (hr : q.procMap.contains r = true) (hne : r ≠ k.1) :
    ∃ reqId, .handed (r, reqId) ∈ l := by
  cases h with
  | handed hpop h =>
    have ht := pop_turn hpop hq
    have hwf := wf_pop hq
    have ha : q.pop.2.Awaits k.1 r :=
      ⟨(ht.keys r hne).trans hr, ht.before hr hne (Or.inl rfl) hne⟩
    obtain ⟨q₁, hl, hlast⟩ := h.split
    rcases Awaits.runs hl hwf ha hp hne with hturn | ha
    · exact hturn
    · cases hlast with
      | handed hpop' _ =>
        have hproc := (pop_turn hpop' (hl.wf hwf)).proc
        have hbefore := ha.current hp
        rw [← hproc, hk] at hbefore
        exact absurd hbefore (not_before_self hne)

end RoundRobin

/-! ### The scheduler -/

namespace Scheduler
variable {n : ℕ} {d : Fin n} {k : Key} {s : Scheduler .roundRobin n}

/-- `_proc_maps[d]` and `_next_proc[d]`. -/
def robin (s : Scheduler .roundRobin n) (d : Fin n) : RoundRobin := (s.queues d).1

theorem robin_congr {t : Scheduler .roundRobin n} (h : t.queues d = s.queues d) :
    t.robin d = s.robin d := by
  rw [robin, robin, h]

theorem robin_setQueue (q : DeviceQueue .roundRobin) : (s.setQueue d q).robin d = q.1 := by
  have hq : (s.setQueue d q).queues d = q := Function.update_self _ _ _
  rw [robin, hq]

theorem robin_push {t : Scheduler .roundRobin n} {time : ℕ}
    (h : t.queues = Function.update s.queues d ((s.queues d).push k.1 k.2 time)) :
    t.robin d = (s.robin d).push k.1 k.2 := by
  have hq : t.queues d = (s.queues d).push k.1 k.2 time := by rw [h, Function.update_self]
  rw [robin, hq]
  rfl

/-- The rounds of `schedule` are steps of the queue of the device, and of no other queue. -/
theorem scheduleUpTo_runs (d : Fin n) : ∀ (fuel : ℕ) (env : Env) (s : Scheduler .roundRobin n),
    RoundRobin.Runs (s.robin d) (turns fuel env d s) ((scheduleUpTo fuel env d s).robin d) ∧
      ∀ d', d' ≠ d → (scheduleUpTo fuel env d s).queues d' = s.queues d'
  | 0, env, s => ⟨.done, fun _ _ => rfl⟩
  | fuel + 1, env, s => by
    rw [scheduleUpTo, turns]
    cases hpop : (s.queues d).pop (env 0).tie with
    | mk k q =>
      have hfst : (s.robin d).pop.1 = k := congrArg Prod.fst hpop
      have hsnd : (s.setQueue d q).robin d = (s.robin d).pop.2 :=
        (robin_setQueue q).trans (congrArg (fun x => x.2.1) hpop).symm
      have hother : ∀ d', d' ≠ d → (s.setQueue d q).queues d' = s.queues d' :=
        fun d' hd => Function.update_of_ne hd _ _
      cases k with
      | none => exact ⟨.idle hfst (hsnd ▸ .done), hother⟩
      | some k =>
        dsimp only
        rw [doInference_eq]
        have hattempt : Attempted (s.setQueue d q) d k (attempt (env 0) d k (s.setQueue d q)) :=
          attempt_attempted (env 0)
        generalize attempt (env 0) d k (s.setQueue d q) = outcome at hattempt
        cases hattempt with
        | @goesOn s' hcalls =>
          obtain ⟨hruns, hrest⟩ := scheduleUpTo_runs d fuel (fun i => env (i + 1)) s'
          rw [robin_congr (congrFun hcalls.1 d), hsnd] at hruns
          exact ⟨.handed hfst hruns, fun d' hd =>
            (hrest d' hd).trans ((congrFun hcalls.1 d').trans (hother d' hd))⟩
        | @sent s' _ _ hqueues _ =>
          have hend : s'.robin d = (s.robin d).pop.2 := (robin_congr (congrFun hqueues d)).trans hsnd
          exact ⟨.handed hfst (hend ▸ .done), fun d' hd => (congrFun hqueues d').trans (hother d' hd)⟩
        | @putBack s' _ _ _ _ hqueues _ _ =>
          have hend : s'.robin d = ((s.robin d).pop.2).push k.1 k.2 := by
            rw [robin_push hqueues, hsnd]
          refine ⟨.handed hfst (.pushed (hend ▸ .done)), fun d' hd => ?_⟩
          rw [hqueues, Function.update_of_ne hd]
          exact hother d' hd

theorem exec_runs (s : Scheduler .roundRobin n) (d : Fin n) (op : Op n) :
    RoundRobin.Runs (s.robin d) (s.queueEvents d op) ((s.exec op).robin d) := by
  have hsame : ∀ {t : Scheduler .roundRobin n}, OnlyCalls s t →
      RoundRobin.Runs (s.robin d) [] (t.robin d) := fun h =>
    (robin_congr (congrFun h.1 d)).symm ▸ .done
  cases op with
  | addScheduler env r d' =>
    rw [queueEvents, exec, robin_congr (congrFun (addScheduler_onlyCalls s env r d').1 d), accept]
    obtain ⟨hruns, hrest⟩ :=
      scheduleUpTo_runs d' (((s.enqueue r d').queues d').contents.card + 1) env (s.enqueue r d')
    have henqueue : (s.enqueue r d').queues = Function.update s.queues d' ((s.queues d').push
        r.key.1 r.key.2 (s.getTaskInferenceTime r.key.1 r.taskId)) := rfl
    by_cases hd : d' = d
    · subst hd
      rw [if_pos rfl]
      rw [robin_push henqueue] at hruns
      split_ifs with hload
      · exact .pushed hruns
      · exact .pushed (robin_push henqueue ▸ .done)
    · have hqueue : (s.enqueue r d').queues d = s.queues d := by
        rw [henqueue, Function.update_of_ne (Ne.symm hd)]
      rw [if_neg hd]
      split_ifs with hload
      · exact (robin_congr ((hrest d (Ne.symm hd)).trans hqueue)).symm ▸ .done
      · exact (robin_congr hqueue).symm ▸ .done
  | finishJobs env d' response =>
    rw [queueEvents, exec, robin_congr (congrFun (finishJobs_onlyCalls s env d' response).1 d)]
    obtain ⟨hruns, hrest⟩ := scheduleUpTo_runs d'
      (((s.answer d' response).queues d').contents.card + 1) env (s.answer d' response)
    have hanswer : (s.answer d' response).robin d = s.robin d :=
      robin_congr (congrFun (answer_answered s d' response).queues d)
    split_ifs with hd
    · subst hd
      rw [hanswer] at hruns
      exact hruns
    · have hqueue := robin_congr (hrest d (Ne.symm hd))
      rw [hanswer] at hqueue
      rw [schedule, hqueue]
      exact .done
  | stopTaskInference pid d' taskId =>
    exact hsame (stopped_onlyCalls (stopTaskInference_stopped s pid d' taskId))
  | stopAllInferenceForProcess pid d' =>
    exact hsame (stopped_onlyCalls (stopAll_stopped s pid d'))
  | clearRunningRequests pid d' =>
    exact hsame (stopped_onlyCalls (clearRunningRequests_stopped s pid d'))

theorem runEvents_runs (d : Fin n) : ∀ (ops : List (Op n)) (s : Scheduler .roundRobin n),
    RoundRobin.Runs (s.robin d) (runEvents d s ops) ((ops.foldl exec s).robin d)
  | [], _ => .done
  | op :: ops, s => (exec_runs s d op).append (runEvents_runs d ops (s.exec op))

/-! ### The keys in a run -/

/-- What is handed over and put back is what the queue held. -/
theorem turns_keys {P : Key → Prop} (d : Fin n) : ∀ (fuel : ℕ) (env : Env)
    (s : Scheduler .roundRobin n), (∀ k ∈ (s.robin d).contents, P k) →
    ∀ k, (.handed k ∈ turns fuel env d s ∨ .pushed k ∈ turns fuel env d s) → P k
  | 0, _, _, _, k, h => by
    rcases h with h | h <;> cases h
  | fuel + 1, env, s, hkeys, k, h => by
    rw [turns] at h
    cases hpop : (s.queues d).pop (env 0).tie with
    | mk k' q =>
      have hfst : (s.robin d).pop.1 = k' := congrArg Prod.fst hpop
      have hsnd : (s.setQueue d q).robin d = (s.robin d).pop.2 :=
        (robin_setQueue q).trans (congrArg (fun x => x.2.1) hpop).symm
      have hcontents : (s.robin d).contents =
          ((s.robin d).pop.1.elim 0 fun k => {k}) + (s.robin d).pop.2.contents :=
        RoundRobin.pop_contents (s.queues d).2
      rw [hfst, ← hsnd] at hcontents
      cases k' with
      | none =>
        rw [hpop] at h
        simp at h
      | some k' =>
        have hhead : P k' := hkeys k' (by simp [hcontents])
        have hrest : ∀ k ∈ ((s.setQueue d q).robin d).contents, P k := fun k hk =>
          hkeys k (by rw [hcontents]; exact Multiset.mem_add.mpr (Or.inr hk))
        rw [hpop] at h
        have hattempt : Attempted (s.setQueue d q) d k' (attempt (env 0) d k' (s.setQueue d q)) :=
          attempt_attempted (env 0)
        simp only [List.mem_cons, Scheduler.QueueEvent.handed.injEq, reduceCtorEq, false_or] at h
        generalize attempt (env 0) d k' (s.setQueue d q) = outcome at hattempt h
        cases hattempt with
        | @goesOn s' hcalls =>
          have hsame : s'.robin d = (s.setQueue d q).robin d := robin_congr (congrFun hcalls.1 d)
          rcases h with (rfl | h) | h
          · exact hhead
          · exact turns_keys d fuel _ s' (hsame ▸ hrest) k (Or.inl h)
          · exact turns_keys d fuel _ s' (hsame ▸ hrest) k (Or.inr h)
        | sent _ _ =>
          rcases h with (rfl | h) | h
          · exact hhead
          · cases h
          · cases h
        | putBack _ _ _ =>
          rcases h with (rfl | h) | h
          · exact hhead
          · simp at h
          · simp only [List.mem_singleton, Scheduler.QueueEvent.pushed.injEq] at h
            exact h ▸ hhead

theorem queueEvents_keys {P : Key → Prop} (hkeys : ∀ k ∈ (s.robin d).contents, P k) {op : Op n}
    (hop : ∀ env r d', op = .addScheduler env r d' → P r.key) :
    ∀ k, (.handed k ∈ s.queueEvents d op ∨ .pushed k ∈ s.queueEvents d op) → P k := by
  intro k h
  cases op with
  | addScheduler env r d' =>
    have hr := hop env r d' rfl
    rw [queueEvents] at h
    split_ifs at h with hd hload
    · subst hd
      have henqueue : (s.enqueue r d').queues = Function.update s.queues d' ((s.queues d').push
        r.key.1 r.key.2 (s.getTaskInferenceTime r.key.1 r.taskId)) := rfl
      have hpushed : ∀ k ∈ ((s.enqueue r d').robin d').contents, P k := by
        rw [robin_push henqueue, RoundRobin.contents_push]
        intro k hk
        rcases Multiset.mem_cons.mp hk with rfl | hk
        · exact hr
        · exact hkeys k hk
      simp only [List.mem_cons, reduceCtorEq, false_or, Scheduler.QueueEvent.pushed.injEq] at h
      rcases h with h | rfl | h
      · exact turns_keys d' _ env _ hpushed k (Or.inl h)
      · exact hr
      · exact turns_keys d' _ env _ hpushed k (Or.inr h)
    · simp only [List.mem_cons, reduceCtorEq, false_or, Scheduler.QueueEvent.pushed.injEq,
        List.not_mem_nil, or_false] at h
      exact h ▸ hr
    · simp at h
  | finishJobs env d' response =>
    rw [queueEvents] at h
    split_ifs at h with hd
    · subst hd
      have hsame : (s.answer d' response).robin d' = s.robin d' :=
        robin_congr (congrFun (answer_answered s d' response).queues d')
      exact turns_keys d' _ env _ (hsame ▸ hkeys) k h
    · simp at h
  | stopTaskInference | stopAllInferenceForProcess | clearRunningRequests => simp [queueEvents] at h

/-- The process of every request handed over was given to `AddScheduler`. -/
theorem runEvents_keys {P : Key → Prop} (d : Fin n) : ∀ (ops : List (Op n))
    (s : Scheduler .roundRobin n), (∀ k ∈ (s.robin d).contents, P k) →
    (∀ env r d', .addScheduler env r d' ∈ ops → P r.key) →
    ∀ k, .handed k ∈ runEvents d s ops → P k
  | [], _, _, _, k, h => by cases h
  | op :: ops, s, hkeys, hops, k, h => by
    have hevents := queueEvents_keys hkeys fun env r d' heq => hops env r d' (heq ▸ List.mem_cons_self)
    rcases List.mem_append.mp h with h | h
    · exact hevents k (Or.inl h)
    · refine runEvents_keys d ops (s.exec op) (fun k hk => ?_)
        (fun env r d' hmem => hops env r d' (List.mem_cons_of_mem _ hmem)) k h
      exact ((exec_runs s d op).mem (s.queues d).2 hk).elim (hkeys k) fun hp => hevents k (Or.inr hp)

/-- In every run of a round-robin scheduler for processes with positive ids, the cursor of a device is
    unset or names a process with requests, no process has an empty queue, no request is handed over
    more often than it has been pushed, and between two turns of a process every other process with a
    request in the queue has a turn. -/
theorem round_robin_turns {ops : List (Op n)} (d : Fin n)
    (hpos : ∀ env r d', .addScheduler env r d' ∈ ops → 0 < r.procId) :
    let q₀ : RoundRobin := ⟨.empty, 0⟩
    let l := runEvents d (init .roundRobin n) ops
    RoundRobin.Runs q₀ l ((ops.foldl exec (init .roundRobin n)).robin d) ∧
      (∀ l₁ l₂, l = l₁ ++ l₂ → ∃ q, RoundRobin.Runs q₀ l₁ q ∧ q.Wf ∧
        ∀ k, l₁.count (.handed k) ≤ l₁.count (.pushed k)) ∧
      ∀ l₁ k l₂ k' l₃, l = l₁ ++ .handed k :: (l₂ ++ .handed k' :: l₃) → k'.1 = k.1 →
        ∀ q r, RoundRobin.Runs q₀ l₁ q → q.procMap.contains r = true → r ≠ k.1 →
          ∃ reqId, .handed (r, reqId) ∈ l₂ := by
  intro q₀ l
  have hruns : RoundRobin.Runs q₀ l ((ops.foldl exec (init .roundRobin n)).robin d) :=
    runEvents_runs d ops (init .roundRobin n)
  have hwf : q₀.Wf := DeviceQueue.wf_empty
  have hempty : q₀.contents = 0 := rfl
  refine ⟨hruns, fun l₁ l₂ hl => ?_, fun l₁ k l₂ k' l₃ hl hk q r hq hr hne => ?_⟩
  · rw [hl] at hruns
    obtain ⟨q, h₁, -⟩ := hruns.split
    refine ⟨q, h₁, h₁.wf hwf, fun k => ?_⟩
    have hcount := h₁.count hwf k
    rw [hempty, Multiset.count_zero] at hcount
    omega
  · have hmem : .handed k ∈ l := by
      rw [hl]
      exact List.mem_append_right _ List.mem_cons_self
    have hproc : 0 < k.1 := runEvents_keys (P := fun k => 0 < k.1) d ops (init .roundRobin n)
      (fun k hk => absurd hk (Multiset.notMem_zero k)) hpos k hmem
    rw [hl] at hruns
    obtain ⟨q', h₁, h₂⟩ := hruns.split
    obtain rfl := hq.unique h₁
    have hlast : .handed k :: (l₂ ++ .handed k' :: l₃) = .handed k :: (l₂ ++ [.handed k']) ++ l₃ := by
      simp
    rw [hlast] at h₂
    obtain ⟨q'', hturns, -⟩ := h₂.split
    exact RoundRobin.turn_between hturns (hq.wf hwf) hproc hk hr hne

/-- A busy device: process 1 is refused twice and has its turn again only after process 2. -/
def refusedTwice : List (Op 1) :=
  [.addScheduler (fun _ => ⟨true, false, .ebusy, 0⟩) ⟨1, 1, 0⟩ 0,
    .addScheduler (fun _ => ⟨true, false, .ebusy, 0⟩) ⟨2, 1, 0⟩ 0,
    .finishJobs accepting 0 ⟨3, 1, 0, 0⟩, .finishJobs accepting 0 ⟨3, 1, 0, 0⟩]

theorem round_robin_turns_refused : runEvents 0 (init .roundRobin 1) refusedTwice =
      [.pushed (1, 1), .handed (1, 1), .pushed (1, 1), .pushed (2, 1)] ++
        .handed (1, 1) :: ([.pushed (1, 1), .handed (2, 1)] ++ .handed (1, 1) :: []) ∧
    ∃ reqId, .handed (2, reqId) ∈ [QueueEvent.pushed (1, 1), .handed (2, 1)] := by
  have hevents : runEvents 0 (init .roundRobin 1) refusedTwice =
      [.pushed (1, 1), .handed (1, 1), .pushed (1, 1), .pushed (2, 1)] ++
        .handed (1, 1) :: ([.pushed (1, 1), .handed (2, 1)] ++ .handed (1, 1) :: []) := by
    decide +kernel
  have hpos : ∀ env r d', .addScheduler env r d' ∈ refusedTwice → 0 < r.procId := by
    intro env r d' h
    simp only [refusedTwice, List.mem_cons, Op.addScheduler.injEq, reduceCtorEq,
      List.not_mem_nil, or_false] at h
    rcases h with ⟨-, rfl, -⟩ | ⟨-, rfl, -⟩ <;> decide
  have hbefore : RoundRobin.Runs ⟨.empty, 0⟩
      [.pushed (1, 1), .handed (1, 1), .pushed (1, 1), .pushed (2, 1)] _ :=
    .pushed (.handed (by decide +kernel) (.pushed (.pushed .done)))
  exact ⟨hevents, (round_robin_turns 0 hpos).2.2 _ (1, 1) _ (1, 1) [] hevents rfl _ 2 hbefore
    (by decide +kernel) (by decide)⟩

end Scheduler
end DxRt
