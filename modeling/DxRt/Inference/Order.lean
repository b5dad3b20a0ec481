import DxRt.Inference.Job

/-! The order in which the tasks of a job run.

    A thread that made a task READY holds it until it sends the request, and no other thread can:
    the number of holders of a task is 1 while it is READY and 0 otherwise. With the log this gives
    that a task is sent once and after the tasks it reads from. The head that `startJob` sends keeps
    the status IDLE until it completes, but it is no successor of any task, so no thread looks at
    it. -/

set_option linter.unusedSectionVars false

namespace DxRt.Inference
variable {τ ν : Type*} [DecidableEq τ] [DecidableEq ν]

/-- The tasks a thread has still to look at. -/
def Thread.pending (g : Graph τ ν) : Thread τ ν → List (Task τ ν)
  | .startJob _ _ => []
  | .startHead _ _ => []
  | .startMultiInputJob _ order => order.filterMap g.findTask
  | .loop todo _ => todo
  | .check t todo _ => t :: todo
  | .process _ todo _ => todo
  | .map _ todo _ => todo
  | .send _ _ todo _ => todo

/-- The task a thread made READY and has not sent. -/
def Thread.held : Thread τ ν → Option (Task τ ν)
  | .process t _ _ => some t
  | .map t _ _ => some t
  | .send t _ _ _ => some t
  | _ => none

/-- The thread is in `startJob`. -/
def Thread.isDirect : Thread τ ν → Bool
  | .startJob _ _ => true
  | .startHead _ _ => true
  | _ => false

/-- The thread will call `onAllRequestComplete`. -/
def Thread.isLast : Thread τ ν → Bool
  | .loop _ caller => caller = .complete true
  | .check _ _ caller => caller = .complete true
  | .process _ _ caller => caller = .complete true
  | .map _ _ caller => caller = .complete true
  | .send _ _ _ caller => caller = .complete true
  | _ => false

/-- A thread that starts a job: `startJob`, or `startMultiInputJob` with all model inputs. -/
def Thread.Starts (g : Graph τ ν) : Thread τ ν → Prop
  | .startJob _ _ => True
  | .startMultiInputJob inputTensors order =>
    (inputTensors.map Prod.fst).Perm g.modelInputs ∧ order.Perm (g.tasks.map Task.name)
  | _ => False

/-- The task that is sent without its status being set. -/
def Thread.direct (g : Graph τ ν) : Thread τ ν → Option (Task τ ν)
  | .startJob _ _ => g.head
  | _ => none

namespace Job
variable {g : Graph τ ν} {s : Job τ ν} {t u : Task τ ν} {x : ν} {direct : Option (Task τ ν)}

/-! ### What is stated of a run -/

/-- A request for a task comes once and after the tasks it reads from; an input tensor is read when
    it is there; a request completes once; the job completes once and after all tasks. -/
def Permits (g : Graph τ ν) (log : List (Event τ ν)) : Event τ ν → Prop
  | .issued t => .issued t ∉ log ∧
      ∀ u ∈ g.tasks, (∃ x ∈ u.outputNames, x ∈ t.inputs) → .completed u ∈ log
  | .mapped _ found => ∀ p ∈ found, p.isSome
  | .completed t => .issued t ∈ log ∧ .completed t ∉ log
  | .allComplete => .allComplete ∉ log ∧ ∀ u ∈ g.tasks, .completed u ∈ log

/-- What a thread may be about to do: its tasks are tasks of the job, after `startJob` only such as
    read from another task. -/
structure ThreadOk (g : Graph τ ν) (direct : Option (Task τ ν)) (th : Thread τ ν) : Prop where
  task : ∀ t, t ∈ th.pending g ∨ th.held = some t → t ∈ g.tasks ∧ (direct.isSome → g.HasProducer t)
  startJob : ∀ inputPtr outputPtr, th = .startJob inputPtr outputPtr → direct = g.head
  startHead : ∀ h outputPtr, th = .startHead h outputPtr → direct = some h
  inputs : ∀ inputTensors order, th = .startMultiInputJob inputTensors order →
    ∀ pair ∈ inputTensors, pair.1 ∈ g.modelInputs

/-- The invariant of a job whose start sends `direct` by itself. -/
structure Inv (g : Graph τ ν) (direct : Option (Task τ ν)) (s : Job τ ν) : Prop where
  threadOk : ∀ th ∈ s.threads, ThreadOk g direct th
  directCount : s.threads.countP Thread.isDirect =
    if ∃ h, direct = some h ∧ .issued h ∉ s.log then 1 else 0
  heldCount : ∀ t ∈ g.tasks, s.threads.countP (fun th => th.held = some t) =
    if s.taskStatus t.name = some .ready then 1 else 0
  lastCount : s.threads.countP Thread.isLast + s.log.count .allComplete =
    if s.doneCount = s.outputCount then 1 else 0
  doneIff : ∀ t ∈ g.tasks, s.taskStatus t.name = some .done ↔ .completed t ∈ s.log
  issuedStatus : ∀ t, .issued t ∈ s.log → t ∈ g.tasks ∧ (direct = some t ∨
    s.taskStatus t.name = some .busy ∨ s.taskStatus t.name = some .done)
  outstandingNodup : (s.outstanding.map TaskRequest.task).Nodup
  outstandingIff : ∀ t, t ∈ s.outstanding.map TaskRequest.task ↔
    .issued t ∈ s.log ∧ .completed t ∉ s.log
  ownOutputs : ∀ req ∈ s.outstanding, ∀ x ∈ req.outputs, x ∈ req.task.outputNames
  produced : ∀ u ∈ g.tasks, ∀ x ∈ u.outputNames, (s.tensors x).isSome → .completed u ∈ s.log
  takenInputs : ∀ t ∈ g.tasks, direct ≠ some t → s.taskStatus t.name ≠ some .idle →
    ∀ x ∈ t.inputs, (s.tensors x).isSome
  doneCount : s.doneCount = g.tasks.countP (fun t => .completed t ∈ s.log)
  outputCount : s.outputCount = g.tasks.length
  permitted : Trace.Permitted (Permits g) s.log

/-! ### Threads -/

variable {before after : List (Thread τ ν)} {th : Thread τ ν} {next : Option (Thread τ ν)}
  {todo : List (Task τ ν)} {caller : Caller} {found : List (Option ℕ)}

/-- A thread that steps leaves the number of the others with some property as it is. -/
theorem countP_replace (P : Thread τ ν → Bool) (before after : List (Thread τ ν)) (th : Thread τ ν)
    (next : Option (Thread τ ν)) :
    (before ++ next.toList ++ after).countP P + (if P th then 1 else 0) =
      (before ++ th :: after).countP P + next.toList.countP P := by
  simp only [List.countP_append, List.countP_cons]
  omega

theorem countP_held (th : Thread τ ν) (t : Task τ ν) :
    [th].countP (fun th => th.held = some t) = if th.held = some t then 1 else 0 := by
  simp [List.countP_cons]

theorem ThreadOk.of_subset {th' : Thread τ ν} (h : ThreadOk g direct th)
    (hsub : ∀ t, t ∈ th'.pending g ∨ th'.held = some t → t ∈ th.pending g ∨ th.held = some t)
    (hloop : th'.isDirect = false ∧ ∀ ins order, th' ≠ .startMultiInputJob ins order) :
    ThreadOk g direct th' where
  task t ht := h.task t (hsub t ht)
  startJob := by
    rintro p q rfl
    simp [Thread.isDirect] at hloop
  startHead := by
    rintro h q rfl
    simp [Thread.isDirect] at hloop
  inputs ins order heq := absurd heq (hloop.2 ins order)

variable (next) in
theorem threadOk_replace (h : Inv g direct s) (hth : s.threads = before ++ th :: after)
    (hnext : ∀ th' ∈ next, ThreadOk g direct th') :
    ∀ th' ∈ before ++ next.toList ++ after, ThreadOk g direct th' := by
  intro th' hmem
  simp only [List.mem_append, Option.mem_toList] at hmem
  rcases hmem with (hb | hn) | ha
  · exact h.threadOk th' (by simp [hth, hb])
  · exact hnext th' hn
  · exact h.threadOk th' (by simp [hth, ha])

theorem Inv.threadOk_self (h : Inv g direct s) (hth : s.threads = before ++ th :: after) :
    ThreadOk g direct th :=
  h.threadOk th (by simp [hth])

/-! ### Statuses -/

theorem taskStatus_setStatus (hg : g.Described) (ht : t ∈ g.tasks) (hu : u ∈ g.tasks)
    (status : Status) : (s.setStatus t status).taskStatus u.name =
      if u = t then some status else s.taskStatus u.name := by
  by_cases h : u = t
  · simp [setStatus, h]
  · have hname : u.name ≠ t.name := fun hname => h (hg.eq_of_name hu ht hname)
    simp [setStatus, h, hname]

theorem Inv.ready_of_held (h : Inv g direct s) (hth : s.threads = before ++ th :: after)
    (hheld : th.held = some t) : s.taskStatus t.name = some .ready := by
  have hcount := h.heldCount t ((h.threadOk_self hth).task t (.inr hheld)).1
  by_contra hready
  rw [hth, if_neg hready, List.countP_append, List.countP_cons] at hcount
  simp [hheld] at hcount

/-! ### Steps of a thread -/

variable (next) in
theorem countP_replace_same {P : Thread τ ν → Bool}
    (hP : next.toList.countP P = if P th then 1 else 0) :
    (before ++ next.toList ++ after).countP P = (before ++ th :: after).countP P := by
  have hcount := countP_replace P before after th next
  omega

variable (next) in
/-- A thread goes on without touching the job. -/
theorem Inv.move (h : Inv g direct s) (hth : s.threads = before ++ th :: after)
    (hok : ∀ th' ∈ next, ThreadOk g direct th')
    (hdirect : next.toList.countP Thread.isDirect = if th.isDirect then 1 else 0)
    (hheld : ∀ t, next.toList.countP (fun th => th.held = some t) =
      if th.held = some t then 1 else 0)
    (hlast : next.toList.countP Thread.isLast = if th.isLast then 1 else 0) :
    Inv g direct { s with threads := before ++ next.toList ++ after } :=
  { h with
    threadOk := threadOk_replace next h hth hok
    directCount := by
      have hcount := h.directCount
      rw [hth] at hcount
      exact (countP_replace_same next hdirect).trans hcount
    heldCount := by
      intro t ht
      have hcount := h.heldCount t ht
      rw [hth] at hcount
      refine Eq.trans (countP_replace_same next ?_) hcount
      simpa using hheld t
    lastCount := by
      have hcount := h.lastCount
      rw [hth] at hcount
      rw [← hcount]
      exact congrArg (· + s.log.count .allComplete) (countP_replace_same next hlast) }

theorem Inv.issued_of_completed (h : Inv g direct s) (ht : .completed t ∈ s.log) :
    .issued t ∈ s.log := by
  obtain ⟨before, hsub, hpermit⟩ := h.permitted.of_mem ht
  exact hsub hpermit.1

/-- A thread changes the status of a task: it takes the task, or lets go of it. -/
theorem Inv.setStatus (hg : g.Described) (h : Inv g direct s)
    (hth : s.threads = before ++ th :: after) (ht : t ∈ g.tasks) {th' : Thread τ ν} {st : Status}
    (hok : ThreadOk g direct th')
    (hdirect : th'.isDirect = th.isDirect) (hlast : th'.isLast = th.isLast)
    (hothers : ∀ u, u ≠ t → (th'.held = some u ↔ th.held = some u))
    (hold : th.held = some t ↔ s.taskStatus t.name = some .ready)
    (hnew : th'.held = some t ↔ st = .ready)
    (htaken : st ≠ .idle → ∀ x ∈ t.inputs, (s.tensors x).isSome)
    (hdone : s.taskStatus t.name ≠ some .done) (hst : st ≠ .done)
    (hissued : .issued t ∉ s.log) :
    Inv g direct { s.setStatus t st with threads := before ++ [th'] ++ after } :=
  { h with
    threadOk := threadOk_replace (some th') h hth (by simpa using hok)
    directCount := by
      have hcount := h.directCount
      rw [hth] at hcount
      refine Eq.trans (countP_replace_same (some th') ?_) hcount
      simp [List.countP_cons, hdirect]
    lastCount := by
      have hcount := h.lastCount
      rw [hth] at hcount
      refine Eq.trans (congrArg (· + s.log.count .allComplete)
        (countP_replace_same (some th') ?_)) hcount
      simp [List.countP_cons, hlast]
    heldCount := by
      intro u hu
      have hcount := h.heldCount u hu
      have hrep := countP_replace (fun th => th.held = some u) before after th (some th')
      rw [hth] at hcount
      have hstatus := taskStatus_setStatus (s := s) hg ht hu st
      by_cases hut : u = t
      · subst hut
        simp only [Option.toList_some, countP_held] at hrep
        change _ = if (s.setStatus u st).taskStatus u.name = some .ready then 1 else 0
        rw [hstatus, if_pos rfl]
        simp only [decide_eq_true_eq, hold, hnew, Option.some.injEq] at hrep ⊢
        simp only [hcount] at hrep
        omega
      · simp only [Option.toList_some, countP_held] at hrep
        change (before ++ [th'] ++ after).countP _ =
          if (s.setStatus t st).taskStatus u.name = some .ready then 1 else 0
        rw [hstatus, if_neg hut, ← hcount]
        simp only [decide_eq_true_eq, hothers u hut] at hrep
        omega
    doneIff := by
      intro u hu
      change (s.setStatus t st).taskStatus u.name = _ ↔ .completed u ∈ s.log
      rw [taskStatus_setStatus hg ht hu, ← h.doneIff u hu]
      split_ifs with hut
      · subst hut
        simp [hst, hdone]
      · rfl
    issuedStatus := by
      intro u hu
      obtain ⟨humem, hustatus⟩ := h.issuedStatus u hu
      have hut : u ≠ t := by
        rintro rfl
        exact hissued hu
      refine ⟨humem, ?_⟩
      change _ ∨ (s.setStatus t st).taskStatus u.name = _ ∨ (s.setStatus t st).taskStatus u.name = _
      rw [taskStatus_setStatus hg ht humem, if_neg hut]
      exact hustatus
    takenInputs := by
      intro u hu hdu hut
      change (s.setStatus t st).taskStatus u.name ≠ _ at hut
      rw [taskStatus_setStatus hg ht hu] at hut
      split_ifs at hut with heq
      · subst heq
        exact htaken fun hst => hut (congrArg some hst)
      · exact h.takenInputs u hu hdu hut }

/-- A request is sent for a task that is BUSY or that `startJob` sends. -/
theorem Inv.issue (h : Inv g direct s) {outputs : List ν} (ht : t ∈ g.tasks)
    (hown : ∀ x ∈ outputs, x ∈ t.outputNames) (hnew : .issued t ∉ s.log)
    (hproducers : ∀ u ∈ g.tasks, (∃ x ∈ u.outputNames, x ∈ t.inputs) → .completed u ∈ s.log)
    (hstatus : direct = some t ∨ s.taskStatus t.name = some .busy)
    (hncompleted : .completed t ∉ s.log) {threads : List (Thread τ ν)}
    (hok : ∀ th ∈ threads, ThreadOk g direct th)
    (hdirect : threads.countP Thread.isDirect =
      if ∃ h, direct = some h ∧ .issued h ∉ .issued t :: s.log then 1 else 0)
    (hheld : ∀ t, threads.countP (fun th => th.held = some t) =
      s.threads.countP (fun th => th.held = some t))
    (hlast : threads.countP Thread.isLast = s.threads.countP Thread.isLast) :
    Inv g direct { s.inferenceRequest ⟨t, outputs⟩ with threads := threads } where
  threadOk := hok
  directCount := hdirect
  heldCount u hu := (hheld u).trans (h.heldCount u hu)
  lastCount := by
    have hcount := h.lastCount
    rw [← hlast] at hcount
    refine Eq.trans (congrArg _ ?_) hcount
    exact List.count_cons_of_ne (by simp)
  doneIff u hu := by simpa [inferenceRequest] using h.doneIff u hu
  issuedStatus u hu := by
    rcases List.mem_cons.mp hu with heq | hu
    · obtain rfl : u = t := Event.issued.inj heq
      exact ⟨ht, hstatus.imp_right .inl⟩
    · exact h.issuedStatus u hu
  outstandingNodup := by
    refine List.nodup_cons.mpr ⟨fun hmem => hnew ((h.outstandingIff t).mp hmem).1, ?_⟩
    exact h.outstandingNodup
  outstandingIff u := by
    change u ∈ t :: s.outstanding.map TaskRequest.task ↔
      .issued u ∈ .issued t :: s.log ∧ .completed u ∉ .issued t :: s.log
    simp only [List.mem_cons, h.outstandingIff, Event.issued.injEq, reduceCtorEq, false_or]
    constructor
    · rintro (rfl | hu)
      · exact ⟨.inl rfl, hncompleted⟩
      · exact ⟨.inr hu.1, hu.2⟩
    · rintro ⟨rfl | hu, hc⟩
      · exact .inl rfl
      · exact .inr ⟨hu, hc⟩
  ownOutputs req hreq := by
    rcases List.mem_cons.mp hreq with rfl | hreq
    · exact hown
    · exact h.ownOutputs req hreq
  produced u hu x hx := by simpa [inferenceRequest] using h.produced u hu x hx
  takenInputs := h.takenInputs
  doneCount := by simpa [inferenceRequest] using h.doneCount
  outputCount := h.outputCount
  permitted := ⟨⟨hnew, hproducers⟩, h.permitted⟩

theorem Inv.recordMapped (h : Inv g direct s) (hfound : ∀ p ∈ found, p.isSome) :
    Inv g direct (s.record (.mapped t found)) :=
  { h with
    directCount := by simpa [record] using h.directCount
    lastCount := by
      refine Eq.trans (congrArg _ ?_) h.lastCount
      exact List.count_cons_of_ne (by simp)
    doneIff := fun u hu => by simpa [record] using h.doneIff u hu
    issuedStatus := fun u hu => h.issuedStatus u (by simpa [record] using hu)
    outstandingIff := fun u => by simpa [record] using h.outstandingIff u
    produced := fun u hu x hx => by simpa [record] using h.produced u hu x hx
    doneCount := by simpa [record] using h.doneCount
    permitted := ⟨hfound, h.permitted⟩ }

/-- Tensors are entered for model inputs only. -/
theorem Inv.addTensors (hg : g.Described) (h : Inv g direct s) {tensors : ν → Option ℕ}
    (hmono : ∀ x, (s.tensors x).isSome → (tensors x).isSome)
    (hnew : ∀ x, (tensors x).isSome → (s.tensors x).isSome ∨ x ∈ g.modelInputs) :
    Inv g direct { s with tensors := tensors } :=
  { h with
    produced := fun u hu x hx hsome =>
      h.produced u hu x hx ((hnew x hsome).resolve_right (hg.notInput u hu x hx))
    takenInputs := fun t ht hdt htaken x hx => hmono x (h.takenInputs t ht hdt htaken x hx) }

theorem Inv.completed_of_doneCount (h : Inv g direct s) (hcount : s.doneCount = s.outputCount) :
    ∀ u ∈ g.tasks, .completed u ∈ s.log := by
  have hall : g.tasks.countP (fun t => .completed t ∈ s.log) = g.tasks.length := by
    rw [← h.doneCount, hcount, h.outputCount]
  intro u hu
  simpa using List.countP_eq_length.mp hall u hu

/-- The last thread calls `onAllRequestComplete`. -/
theorem Inv.allComplete (h : Inv g direct s) (hth : s.threads = before ++ th :: after)
    (hheld : th.held = none) (hdirect : th.isDirect = false) (hlast : th.isLast = true) :
    Inv g direct { s.record .allComplete with threads := before ++ after } := by
  have hlastCount := h.lastCount
  have hnext := countP_replace Thread.isLast before after th none
  rw [hth] at hlastCount
  simp only [Option.toList_none, List.append_nil, hlast, if_true, List.countP_nil] at hnext
  have hdone : s.doneCount = s.outputCount := by
    by_contra hne
    rw [if_neg hne] at hlastCount
    omega
  rw [if_pos hdone] at hlastCount
  have hnone : .allComplete ∉ s.log := List.count_eq_zero.mp (by omega)
  exact
    { h with
      threadOk := by simpa using threadOk_replace none h hth (by simp)
      directCount := by
        have hcount := h.directCount
        have hrep := countP_replace Thread.isDirect before after th none
        rw [← hth] at hrep
        simp only [Option.toList_none, List.append_nil, hdirect, List.countP_nil] at hrep
        simpa [record, ← hcount] using hrep
      heldCount := by
        intro u hu
        have hcount := h.heldCount u hu
        have hrep := countP_replace (fun th => th.held = some u) before after th none
        rw [← hth] at hrep
        simp only [Option.toList_none, List.append_nil, hheld, List.countP_nil] at hrep
        exact Eq.trans (by simpa using hrep) hcount
      lastCount := by
        change (before ++ after).countP _ + (Event.allComplete :: s.log).count _ =
          if s.doneCount = s.outputCount then 1 else 0
        rw [List.count_cons_self, if_pos hdone]
        omega
      doneIff := fun u hu => by simpa [record] using h.doneIff u hu
      issuedStatus := fun u hu => h.issuedStatus u (by simpa [record] using hu)
      outstandingIff := fun u => by simpa [record] using h.outstandingIff u
      produced := fun u hu x hx => by simpa [record] using h.produced u hu x hx
      doneCount := by simpa [record] using h.doneCount
      permitted := ⟨⟨hnone, h.completed_of_doneCount hdone⟩, h.permitted⟩ }

/-! ### The completion of a request -/

theorem finalOutputs_subset {req : TaskRequest τ ν} (hown : ∀ x ∈ req.outputs, x ∈ req.task.outputNames)
    (hx : x ∈ finalOutputs req) : x ∈ req.task.outputNames := by
  rw [finalOutputs] at hx
  split_ifs at hx
  · exact hown x hx
  · exact hx

theorem Inv.direct_ne (hd : ∀ h, direct = some h → g.Source h)
    (hok : ThreadOk g direct th) (ht : t ∈ th.pending g ∨ th.held = some t) : direct ≠ some t := by
  intro hdt
  exact (hd t hdt).2 ((hok.task t ht).2 (by simp [hdt]))

/-- No thread holds a task whose request was sent. -/
theorem Inv.not_ready_of_issued (hd : ∀ h, direct = some h → g.Source h)
    (h : Inv g direct s) (hissued : .issued t ∈ s.log) : s.taskStatus t.name ≠ some .ready := by
  obtain ⟨ht, hdt | hbusy | hdone⟩ := h.issuedStatus t hissued
  · intro hready
    have hcount := h.heldCount t ht
    rw [if_pos hready] at hcount
    obtain ⟨th, hth, hheld⟩ := List.countP_pos_iff.mp (hcount ▸ Nat.one_pos)
    exact Inv.direct_ne hd (h.threadOk th hth) (.inr (by simpa using hheld)) hdt
  · simp [hbusy]
  · simp [hdone]

/-- A task that a thread holds has its inputs. -/
theorem Inv.inputs_of_held (hd : ∀ h, direct = some h → g.Source h) (h : Inv g direct s)
    (hth : s.threads = before ++ th :: after) (hheld : th.held = some t) :
    ∀ x ∈ t.inputs, (s.tensors x).isSome := by
  have hok := h.threadOk_self hth
  refine h.takenInputs t (hok.task t (.inr hheld)).1 (Inv.direct_ne hd hok (.inr hheld)) ?_
  simp [h.ready_of_held hth hheld]

theorem threadOk_nexts (hg : g.Described) (ht : t ∈ g.tasks) :
    ThreadOk g direct (.loop (g.nexts t) caller) where
  task u hu := by
    rcases hu with hu | hu
    · exact ⟨((hg.mem_nexts_iff ht).mp hu).1, fun _ => hg.hasProducer_of_nexts ht hu⟩
    · simp [Thread.held] at hu
  startJob := by simp
  startHead := by simp
  inputs := by simp

/-- The number of completed tasks grows by one. -/
theorem countP_completed (hg : g.Described) (ht : t ∈ g.tasks) {log : List (Event τ ν)}
    (hnew : .completed t ∉ log) :
    g.tasks.countP (fun u => .completed u ∈ Event.completed t :: log) =
      g.tasks.countP (fun u => .completed u ∈ log) + 1 := by
  have hnodup : g.tasks.Nodup := hg.nodup.of_map
  obtain ⟨l, r, hlr⟩ := List.append_of_mem ht
  rw [hlr] at hnodup ⊢
  have hl : t ∉ l := fun hl => (List.disjoint_of_nodup_append hnodup) hl List.mem_cons_self
  have hr : t ∉ r := (List.nodup_cons.mp hnodup.of_append_right).1
  have hsame : ∀ ts : List (Task τ ν), t ∉ ts →
      ts.countP (fun u => .completed u ∈ Event.completed t :: log) =
        ts.countP (fun u => .completed u ∈ log) := by
    intro ts hts
    refine List.countP_congr fun u hu => ?_
    have hut : u ≠ t := by
      rintro rfl
      exact hts hu
    simp [hut]
  simp only [List.countP_append, List.countP_cons, hsame l hl, hsame r hr]
  simp [hnew]
  omega

section
variable {req : TaskRequest τ ν} {ptr : ν → ℕ} {out out' : List (TaskRequest τ ν)}

theorem taskStatus_onRequestComplete (hg : g.Described) (ht : req.task ∈ g.tasks)
    (hu : u ∈ g.tasks) : (onRequestComplete g s req ptr).taskStatus u.name =
      if u = req.task then some .done else s.taskStatus u.name :=
  taskStatus_setStatus hg ht hu .done

theorem isSome_onRequestComplete : ((onRequestComplete g s req ptr).tensors x).isSome ↔
    x ∈ finalOutputs req ∨ (s.tensors x).isSome := by
  change (if x ∈ finalOutputs req then some (ptr x) else s.tensors x).isSome ↔ _
  split_ifs with hx <;> simp [hx]

/-- The task of a request that is out was sent and has not completed. -/
theorem Inv.task_outstanding (h : Inv g direct s) (hreq : req ∈ s.outstanding) :
    req.task ∈ g.tasks ∧ .issued req.task ∈ s.log ∧ .completed req.task ∉ s.log := by
  obtain ⟨hissued, hnew⟩ := (h.outstandingIff req.task).mp (List.mem_map_of_mem hreq)
  exact ⟨(h.issuedStatus _ hissued).1, hissued, hnew⟩

/-- What is out when a request completes: all others. -/
theorem Inv.outstanding_of_complete (h : Inv g direct s) (hout : s.outstanding = out ++ req :: out') :
    ((out ++ out').map TaskRequest.task).Nodup ∧ ∀ u, u ∈ (out ++ out').map TaskRequest.task ↔
      .issued u ∈ Event.completed req.task :: s.log ∧
        .completed u ∉ Event.completed req.task :: s.log := by
  have hnodup := h.outstandingNodup
  rw [hout, List.map_append, List.map_cons, List.nodup_middle, List.nodup_cons, ← List.map_append]
    at hnodup
  obtain ⟨htnew, hrest⟩ := hnodup
  refine ⟨hrest, fun u => ?_⟩
  have hu := h.outstandingIff u
  have hsplit : u ∈ s.outstanding.map TaskRequest.task ↔
      u = req.task ∨ u ∈ (out ++ out').map TaskRequest.task := by
    simp only [hout, List.map_append, List.map_cons, List.mem_append, List.mem_cons]
    tauto
  rw [hsplit] at hu
  simp only [List.mem_cons, reduceCtorEq, false_or, Event.completed.injEq, not_or]
  by_cases hut : u = req.task
  · subst hut
    exact iff_of_false htnew fun hc => hc.2.1 rfl
  · rw [and_left_comm, ← hu]
    simp [hut]

/-- A task whose request was sent is not IDLE, unless it is the one that `startJob` sends. -/
theorem Inv.not_idle_of_issued (h : Inv g direct s) (ht : .issued t ∈ s.log)
    (hdirect : direct ≠ some t) : s.taskStatus t.name ≠ some .idle := by
  rcases (h.issuedStatus t ht).2.resolve_left hdirect with hbusy | hdone
  · simp [hbusy]
  · simp [hdone]

/-- The thread of the callback looks at the next tasks, and is the last one if all are done. -/
theorem Inv.lastCount_of_complete (h : Inv g direct s) (hnall : s.doneCount ≠ s.outputCount)
    {todo : List (Task τ ν)} :
    (.loop todo (.complete (decide (s.doneCount + 1 = s.outputCount))) :: s.threads).countP
        Thread.isLast + (Event.completed t :: s.log).count .allComplete =
      if s.doneCount + 1 = s.outputCount then 1 else 0 := by
  have hcount := h.lastCount
  rw [if_neg hnall] at hcount
  rw [List.countP_cons, List.count_cons_of_ne (by simp)]
  simp only [Thread.isLast, Caller.complete.injEq, decide_eq_true_eq]
  omega

theorem Inv.complete (hg : g.Described) (hd : ∀ h, direct = some h → g.Source h)
    (h : Inv g direct s) (hout : s.outstanding = out ++ req :: out') (ptr : ν → ℕ) :
    Inv g direct (onRequestComplete g { s with outstanding := out ++ out' } req ptr) := by
  have hmem : req ∈ s.outstanding := by simp [hout]
  obtain ⟨ht, hissued, hnew⟩ := h.task_outstanding hmem
  obtain ⟨hnodup, hiff⟩ := h.outstanding_of_complete hout
  have hfinal : ∀ x ∈ finalOutputs req, x ∈ req.task.outputNames := fun x hx =>
    finalOutputs_subset (h.ownOutputs _ hmem) hx
  have hnready := h.not_ready_of_issued hd hissued
  have hstatus : ∀ u ∈ g.tasks,
      (onRequestComplete g { s with outstanding := out ++ out' } req ptr).taskStatus u.name =
        if u = req.task then some .done else s.taskStatus u.name := fun u hu =>
    taskStatus_onRequestComplete hg ht hu
  exact
    { threadOk := List.forall_mem_cons.mpr ⟨threadOk_nexts hg ht, h.threadOk⟩
      directCount := by
        simpa [onRequestComplete, storeOutputs, Job.setStatus, record, Thread.isDirect]
          using h.directCount
      heldCount := by
        intro u hu
        rw [hstatus u hu]
        refine (List.countP_cons_of_neg (by simp [Thread.held])).trans
          ((h.heldCount u hu).trans ?_)
        by_cases hut : u = req.task
        · subst hut
          simp [hnready]
        · simp [hut]
      lastCount := h.lastCount_of_complete fun hcount =>
        hnew (h.completed_of_doneCount hcount _ ht)
      doneIff := by
        intro u hu
        change _ ↔ .completed u ∈ Event.completed req.task :: s.log
        rw [hstatus u hu, List.mem_cons, ← h.doneIff u hu]
        split_ifs with hut <;> simp [hut]
      issuedStatus := by
        intro u hu
        change .issued u ∈ Event.completed req.task :: s.log at hu
        obtain ⟨humem, hustatus⟩ := h.issuedStatus u (by simpa using hu)
        refine ⟨humem, ?_⟩
        rw [hstatus u humem]
        split_ifs with hut
        · simp
        · exact hustatus
      outstandingNodup := hnodup
      outstandingIff := hiff
      ownOutputs := by
        intro req' hreq
        refine h.ownOutputs req' ?_
        rw [hout]
        exact List.Sublist.subset ((List.sublist_cons_self _ _).append_left _) hreq
      produced := by
        intro u hu x hx hsome
        refine List.mem_cons.mpr ?_
        rcases isSome_onRequestComplete.mp hsome with hxt | hold
        · exact .inl (by rw [hg.owner u hu _ ht x hx (hfinal x hxt)])
        · exact .inr (h.produced u hu x hx hold)
      takenInputs := by
        intro u hu hdu htaken x hx
        rw [hstatus u hu] at htaken
        refine isSome_onRequestComplete.mpr (Or.inr (h.takenInputs u hu hdu ?_ x hx))
        split_ifs at htaken with hut
        · exact hut ▸ h.not_idle_of_issued hissued (hut ▸ hdu)
        · exact htaken
      doneCount := by
        have hcount := countP_completed hg ht hnew
        rw [← h.doneCount] at hcount
        exact hcount.symm
      outputCount := h.outputCount
      permitted := ⟨⟨hissued, hnew⟩, h.permitted⟩ }

end

/-! ### Entering model inputs -/

theorem isSome_insertTensor (tensors : ν → Option ℕ) (x y : ν) (p : ℕ) :
    (insertTensor tensors x p y).isSome ↔ (tensors y).isSome ∨ y = x := by
  unfold insertTensor
  by_cases hx : (tensors x).isSome
  · rw [if_pos hx]
    constructor
    · exact .inl
    · rintro (hy | rfl)
      · exact hy
      · exact hx
  · rw [if_neg hx]
    by_cases hyx : y = x
    · simp [hyx]
    · simp [hyx]

theorem isSome_foldl_insertTensor {α : Type*} (f : α → ν) (p : α → ℕ) (as : List α)
    (tensors : ν → Option ℕ) (y : ν) :
    (as.foldl (fun tensors a => insertTensor tensors (f a) (p a)) tensors y).isSome ↔
      (tensors y).isSome ∨ ∃ a ∈ as, y = f a := by
  induction as generalizing tensors with
  | nil => simp
  | cons a as ih => simp [ih, isSome_insertTensor, or_assoc]

theorem isSome_addSharedInputs {h : Task τ ν} {p : ℕ} :
    ((addSharedInputs g s h p).tensors x).isSome ↔
      (s.tensors x).isSome ∨ x ∈ g.modelInputs ∧ isSharedInput g h x := by
  simp [addSharedInputs, isSome_foldl_insertTensor (fun x => x) (fun _ => p)]

theorem isSome_addInputs {inputTensors : List (ν × ℕ)} :
    ((s.addInputs inputTensors).tensors x).isSome ↔
      (s.tensors x).isSome ∨ x ∈ inputTensors.map Prod.fst := by
  simp only [addInputs, isSome_foldl_insertTensor Prod.fst Prod.snd, List.mem_map]
  simp only [eq_comm]

/-! ### Every step -/

/-- A thread that holds a task goes from one part of `processReadyTask` to the next. -/
theorem Inv.move_held (th' : Thread τ ν) (h : Inv g direct s)
    (hth : s.threads = before ++ th :: after) (hheld : th'.held = th.held)
    (hpending : th'.pending g = th.pending g) (hdirect : th'.isDirect = th.isDirect)
    (hlast : th'.isLast = th.isLast) (hsome : th.held.isSome) :
    Inv g direct { s with threads := before ++ [th'] ++ after } := by
  have hok := h.threadOk_self hth
  refine h.move (some th') hth ?_ (by simp [List.countP_cons, hdirect])
    (by simp [List.countP_cons, hheld]) (by simp [List.countP_cons, hlast])
  rintro _ ⟨⟩
  have hno : th'.isDirect = false ∧ ∀ ins order, th' ≠ .startMultiInputJob ins order := by
    rw [← hheld] at hsome
    cases th' <;> simp [Thread.held, Thread.isDirect] at hsome ⊢
  exact hok.of_subset (by simp [hheld, hpending]) hno

theorem checkAndSetTaskReady_cases (s : Job τ ν) (t : Task τ ν) :
    (s.checkAndSetTaskReady t = (s, false) ∧
        (s.taskStatus t.name ≠ some .idle ∨ s.inputsAvailable t = false)) ∨
      (s.checkAndSetTaskReady t = (s.setStatus t .ready, true) ∧
        s.taskStatus t.name = some .idle ∧ s.inputsAvailable t = true) := by
  unfold checkAndSetTaskReady
  split
  · rename_i hidle
    cases havailable : s.inputsAvailable t
    · simp
    · simp [hidle]
  · rename_i hidle
    exact .inl ⟨rfl, .inl hidle⟩

theorem headRequest_outputs {head : Task τ ν} {q : ℕ} (hx : x ∈ (headRequest g head q).outputs) :
    x ∈ head.outputNames := by
  simp only [headRequest, userOutputs] at hx
  split_ifs at hx
  · cases hx
  · exact List.mem_of_mem_filter hx
  · cases hx

section Exec
variable (hg : g.Described) (hd : ∀ h, direct = some h → g.Source h)
include hg hd

theorem Inv.exec_start {p q : ℕ} (h : Inv g direct s)
    (hth : s.threads = before ++ .startJob p q :: after) :
    Inv g direct { (exec g s (.startJob p q)).1 with
      threads := before ++ (exec g s (.startJob p q)).2.toList ++ after } := by
  obtain ⟨head, hhead, -⟩ := hg.exists_head
  have hdirect := (h.threadOk_self hth).startJob p q rfl
  simp only [exec, hhead]
  have hmove := h.move (some (.startHead head q)) hth
    (by
      rintro _ ⟨⟩
      exact ⟨by simp [Thread.pending, Thread.held], by simp,
        by rintro _ _ ⟨⟩; exact hdirect.trans hhead, by simp⟩)
    (by simp [Thread.isDirect]) (by simp [Thread.held]) (by simp [Thread.isLast])
  exact hmove.addTensors hg (fun x hx => isSome_addSharedInputs.mpr (.inl hx))
    (fun x hx => (isSome_addSharedInputs.mp hx).imp_right And.left)

theorem Inv.exec_startHead {head : Task τ ν} {q : ℕ} (h : Inv g direct s)
    (hth : s.threads = before ++ .startHead head q :: after) :
    Inv g direct { (exec g s (.startHead head q)).1 with
      threads := before ++ (exec g s (.startHead head q)).2.toList ++ after } := by
  have hdirect := (h.threadOk_self hth).startHead head q rfl
  have hsource := hd head hdirect
  have hcount := h.directCount
  have hrep := countP_replace Thread.isDirect before after (.startHead head q) none
  rw [← hth, hcount] at hrep
  have hnew : .issued head ∉ s.log := by
    intro hissued
    simp [hdirect, hissued, Thread.isDirect] at hrep
  have hncompleted : .completed head ∉ s.log := by
    exact fun hcompleted => hnew (h.issued_of_completed hcompleted)
  have hthreads : before ++ (exec g s (.startHead head q)).2.toList ++ after =
      before ++ (none : Option (Thread τ ν)).toList ++ after := rfl
  rw [hthreads]
  refine h.issue hsource.1 (fun _ hx => headRequest_outputs hx) hnew ?_ (.inl hdirect) hncompleted
    (threadOk_replace none h hth (by simp)) ?_ ?_ ?_
  · rintro u hu ⟨x, hx, hin⟩
    exact absurd ⟨u, hu, x, hx, hin⟩ hsource.2
  · simp only [hdirect, Option.some.injEq, exists_eq_left', hnew, not_false_eq_true, if_true,
      Thread.isDirect, List.countP_nil, Option.toList_none] at hrep
    simp [hdirect]
    simpa using hrep
  · intro t
    rw [hth]
    exact countP_replace_same _ (by simp [Thread.held])
  · rw [hth]
    exact countP_replace_same _ (by simp [Thread.isLast])

theorem Inv.exec_startMultiInputJob {inputTensors : List (ν × ℕ)} {order : List τ}
    (h : Inv g direct s) (hth : s.threads = before ++ .startMultiInputJob inputTensors order :: after) :
    Inv g direct { (exec g s (.startMultiInputJob inputTensors order)).1 with
      threads := before ++ (exec g s (.startMultiInputJob inputTensors order)).2.toList ++ after } := by
  have hok := h.threadOk_self hth
  have hmove := h.move (some (.loop (order.filterMap g.findTask) .start)) hth
    (by
      rintro _ ⟨⟩
      exact hok.of_subset (fun t ht => ht) (by simp [Thread.isDirect]))
    (by simp [Thread.isDirect]) (by simp [Thread.held]) (by simp [Thread.isLast])
  refine hmove.addTensors hg (fun x hx => isSome_addInputs.mpr (.inl hx)) fun x hx => ?_
  refine (isSome_addInputs.mp hx).imp_right fun hmem => ?_
  obtain ⟨pair, hpair, rfl⟩ := List.mem_map.mp hmem
  exact hok.inputs inputTensors order rfl pair hpair

theorem Inv.exec_loop (h : Inv g direct s) (hth : s.threads = before ++ .loop todo caller :: after) :
    Inv g direct { (exec g s (.loop todo caller)).1 with
      threads := before ++ (exec g s (.loop todo caller)).2.toList ++ after } := by
  have hok := h.threadOk_self hth
  cases todo with
  | nil =>
    by_cases hlast : caller = .complete true
    · subst hlast
      simpa [exec] using h.allComplete hth rfl rfl rfl
    · simp only [exec, if_neg hlast]
      exact h.move none hth (by simp) (by simp [Thread.isDirect]) (by simp [Thread.held])
        (by simp [Thread.isLast, hlast])
  | cons t todo =>
    have hcheck : Inv g direct { s with threads := before ++ [.check t todo caller] ++ after } :=
      h.move (some (.check t todo caller)) hth
        (by
          rintro _ ⟨⟩
          exact hok.of_subset (by simp [Thread.pending, Thread.held]) (by simp [Thread.isDirect]))
        (by simp [Thread.isDirect]) (by simp [Thread.held])
        (by simp [Thread.isLast, List.countP_cons])
    have hskip : Inv g direct { s with threads := before ++ [.loop todo caller] ++ after } :=
      h.move (some (.loop todo caller)) hth
        (by
          rintro _ ⟨⟩
          refine hok.of_subset ?_ (by simp [Thread.isDirect])
          simp only [Thread.pending, Thread.held, List.mem_cons]
          tauto)
        (by simp [Thread.isDirect]) (by simp [Thread.held])
        (by simp [Thread.isLast, List.countP_cons])
    cases caller with
    | start =>
      by_cases hidle : s.taskStatus t.name = some .idle
      · simp only [exec, if_pos hidle]
        exact hcheck
      · simp only [exec, if_neg hidle]
        exact hskip
    | complete all => exact hcheck

theorem Inv.exec_check (h : Inv g direct s)
    (hth : s.threads = before ++ .check t todo caller :: after) :
    Inv g direct { (exec g s (.check t todo caller)).1 with
      threads := before ++ (exec g s (.check t todo caller)).2.toList ++ after } := by
  have hok := h.threadOk_self hth
  have hpending : t ∈ (Thread.check t todo caller).pending g := by simp [Thread.pending]
  have ht : t ∈ g.tasks := (hok.task t (.inl hpending)).1
  rcases checkAndSetTaskReady_cases s t with ⟨hcheck, -⟩ | ⟨hcheck, hidle, havailable⟩
  · simp only [exec, hcheck]
    refine h.move (some (.loop todo caller)) hth ?_ (by simp [Thread.isDirect])
      (by simp [Thread.held]) (by simp [Thread.isLast, List.countP_cons])
    rintro _ ⟨⟩
    refine hok.of_subset ?_ (by simp [Thread.isDirect])
    simp only [Thread.pending, Thread.held, List.mem_cons]
    tauto
  · simp only [exec, hcheck]
    have hnissued : .issued t ∉ s.log := by
      intro hissued
      obtain ⟨-, hdt | hbusy | hdone⟩ := h.issuedStatus t hissued
      · exact Inv.direct_ne hd hok (.inl hpending) hdt
      · simp [hidle] at hbusy
      · simp [hidle] at hdone
    refine h.setStatus hg hth ht ?_ rfl rfl (by simp [Thread.held, eq_comm]) (by simp [Thread.held, hidle])
      (by simp [Thread.held]) (fun _ x hx => List.all_eq_true.mp havailable x hx) (by simp [hidle])
      (by simp) hnissued
    refine hok.of_subset ?_ (by simp [Thread.isDirect])
    simp only [Thread.pending, Thread.held, List.mem_cons]
    rintro u (hu | hu)
    · exact .inl (.inr hu)
    · exact .inl (.inl (Option.some.inj hu).symm)

theorem Inv.exec_process (h : Inv g direct s)
    (hth : s.threads = before ++ .process t todo caller :: after) :
    Inv g direct { (exec g s (.process t todo caller)).1 with
      threads := before ++ (exec g s (.process t todo caller)).2.toList ++ after } := by
  have hready := h.ready_of_held hth rfl
  simp only [exec, if_pos hready]
  exact h.move_held (.map t todo caller) hth rfl rfl rfl rfl rfl

theorem Inv.exec_map (h : Inv g direct s) (hth : s.threads = before ++ .map t todo caller :: after) :
    Inv g direct { (exec g s (.map t todo caller)).1 with
      threads := before ++ (exec g s (.map t todo caller)).2.toList ++ after } := by
  have hmove :=
    h.move_held (.send t (t.inputs.map s.tensors) todo caller) hth rfl rfl rfl rfl rfl
  refine hmove.recordMapped fun p hp => ?_
  obtain ⟨x, hx, rfl⟩ := List.mem_map.mp hp
  exact h.inputs_of_held hd hth rfl x hx

theorem Inv.exec_send (h : Inv g direct s)
    (hth : s.threads = before ++ .send t found todo caller :: after) :
    Inv g direct { (exec g s (.send t found todo caller)).1 with
      threads := before ++ (exec g s (.send t found todo caller)).2.toList ++ after } := by
  have hok := h.threadOk_self hth
  have ht := (hok.task t (.inr rfl)).1
  have hready := h.ready_of_held hth rfl
  have hnissued : .issued t ∉ s.log := fun hissued => h.not_ready_of_issued hd hissued hready
  have hset : ∀ st : Status, st ≠ .ready → st ≠ .done → Inv g direct { s.setStatus t st with
      threads := before ++ [.loop todo caller] ++ after } := by
    intro st hst hst'
    refine h.setStatus hg hth ht ?_ rfl rfl (by simp [Thread.held, eq_comm])
      (by simp [Thread.held, hready]) (by simp [Thread.held, hst])
      (fun _ => h.inputs_of_held hd hth rfl) (by simp [hready]) hst' hnissued
    exact hok.of_subset (fun u hu => .inl (by simpa [Thread.pending, Thread.held] using hu))
      (by simp [Thread.isDirect])
  by_cases hmissing : missingPtr found = true
  · simp only [exec, if_pos hmissing]
    exact hset .idle (by simp) (by simp)
  · simp only [exec, if_neg hmissing]
    have hbusy := hset .busy (by simp) (by simp)
    refine hbusy.issue ht (fun x hx => absurd hx List.not_mem_nil) hnissued ?_ (.inr ?_) ?_
      hbusy.threadOk ?_ (fun _ => rfl) rfl
    · rintro u hu ⟨x, hx, hin⟩
      exact h.produced u hu x hx (h.inputs_of_held hd hth rfl x hin)
    · exact (taskStatus_setStatus hg ht ht .busy).trans (if_pos rfl)
    · exact fun hcompleted => hnissued (h.issued_of_completed hcompleted)
    · refine hbusy.directCount.trans ?_
      have hdt := Inv.direct_ne hd hok (.inr rfl)
      refine if_congr ?_ rfl rfl
      refine exists_congr fun u => and_congr_right fun hu => ?_
      have hut : u ≠ t := by
        rintro rfl
        exact hdt hu
      simp [Job.setStatus, hut]

theorem Inv.exec (h : Inv g direct s) (hth : s.threads = before ++ th :: after) :
    Inv g direct { (exec g s th).1 with threads := before ++ (exec g s th).2.toList ++ after } := by
  cases th with
  | startJob p q => exact h.exec_start hg hd hth
  | startHead head q => exact h.exec_startHead hg hd hth
  | startMultiInputJob inputTensors order => exact h.exec_startMultiInputJob hg hd hth
  | loop todo caller => exact h.exec_loop hg hd hth
  | check t todo caller => exact h.exec_check hg hd hth
  | process t todo caller => exact h.exec_process hg hd hth
  | map t todo caller => exact h.exec_map hg hd hth
  | send t found todo caller => exact h.exec_send hg hd hth

theorem Inv.step {valid : ℕ → Prop} {s' : Job τ ν} (hstep : Step g valid s s')
    (h : Inv g direct s) : Inv g direct s' := by
  cases hstep with
  | thread hth => exact h.exec hg hd hth
  | complete hout hptr => exact h.complete hg hd hout _

end Exec

/-! ### Every run -/

theorem Inv.init (hg : g.Described) {start : Thread τ ν} (hstart : start.Starts g) :
    Inv g (start.direct g) (init g start) where
  threadOk := by
    intro th hth
    obtain rfl : th = start := by simpa [Job.init] using hth
    cases th <;> simp only [Thread.Starts] at hstart
    case startJob p q => exact ⟨by simp [Thread.pending, Thread.held], by simp [Thread.direct], by simp, by simp⟩
    case startMultiInputJob inputTensors order =>
      refine ⟨?_, by simp, by simp, ?_⟩
      · rintro t (ht | ht)
        · obtain ⟨name, _, hname⟩ := List.mem_filterMap.mp ht
          exact ⟨(Graph.mem_of_findTask hname).1, by simp [Thread.direct]⟩
        · simp [Thread.held] at ht
      · rintro _ _ ⟨⟩ pair hpair
        exact hstart.1.subset (List.mem_map_of_mem hpair)
  directCount := by
    obtain ⟨head, hhead, -⟩ := hg.exists_head
    cases start <;> simp_all [Thread.Starts, Job.init, Thread.isDirect, Thread.direct]
  heldCount := by
    intro t ht
    have hmem : t.name ∈ g.tasks.map Task.name := List.mem_map_of_mem ht
    cases start <;> simp_all [Thread.Starts, Job.init, Thread.held]
  lastCount := by
    have hlength : g.tasks.length ≠ 0 := by simpa using hg.nonempty
    cases start <;> simp_all [Thread.Starts, Job.init, Thread.isLast, eq_comm]
  doneIff := by
    intro t ht
    have hmem : t.name ∈ g.tasks.map Task.name := List.mem_map_of_mem ht
    simp only [Job.init, if_pos hmem]
    simp
  issuedStatus := by simp [Job.init]
  outstandingNodup := List.nodup_nil
  outstandingIff := by simp [Job.init]
  ownOutputs := by simp [Job.init]
  produced := by simp [Job.init]
  takenInputs := by
    intro t ht
    have hmem : t.name ∈ g.tasks.map Task.name := List.mem_map_of_mem ht
    simp only [Job.init, if_pos hmem]
    simp
  doneCount := by simp [Job.init]
  outputCount := rfl
  permitted := trivial

theorem Inv.run (hg : g.Described) {start : Thread τ ν} (hstart : start.Starts g)
    (hd : ∀ h, start.direct g = some h → g.Source h) {valid : ℕ → Prop}
    (hrun : Relation.ReflTransGen (Step g valid) (Job.init g start) s) :
    Inv g (start.direct g) s :=
  Run.invariant (fun _ _ hstep h => h.step hg hd hstep) hrun (Inv.init hg hstart)

theorem direct_head {start : Thread τ ν} {h : Task τ ν} (hh : start.direct g = some h) :
    g.head = some h := by
  cases start <;> simp_all [Thread.direct]

/-- In every run of a job, however its threads and the completions of its requests interleave: a
    task is sent at most once, after the tasks it reads from have completed; its input tensors are
    there when they are read; `onAllRequestComplete` runs at most once, after all tasks. -/
theorem task_order (hg : g.Consistent) {start : Thread τ ν} (hstart : start.Starts g)
    {valid : ℕ → Prop} (hrun : Relation.ReflTransGen (Step g valid) (Job.init g start) s) :
    (∀ t, s.log.count (.issued t) ≤ 1) ∧
    (∀ after before t, s.log = after ++ .issued t :: before →
      ∀ u ∈ g.tasks, (∃ x ∈ u.outputNames, x ∈ t.inputs) → .completed u ∈ before) ∧
    (∀ t found, .mapped t found ∈ s.log → ∀ p ∈ found, p.isSome) ∧
    s.log.count .allComplete ≤ 1 ∧
    (∀ after before, s.log = after ++ .allComplete :: before →
      ∀ u ∈ g.tasks, .completed u ∈ before) := by
  have hpermitted :=
    (Inv.run hg.toDescribed hstart (fun _ hh => hg.source_head (direct_head hh)) hrun).permitted
  refine ⟨fun t => ?_, fun after before t hlog => ?_, fun t found hmem => ?_, ?_,
    fun after before hlog => ?_⟩
  · exact hpermitted.count_le_one fun log hpermit => hpermit.1
  · rw [hlog] at hpermitted
    exact hpermitted.of_split.2
  · obtain ⟨_, -, hpermit⟩ := hpermitted.of_mem hmem
    exact hpermit
  · exact hpermitted.count_le_one fun log hpermit => hpermit.1
  · rw [hlog] at hpermitted
    exact hpermitted.of_split.2

/-- One model input; two tasks read the output of the first, and the last reads theirs. -/
def diamond : Graph ℕ ℕ where
  tasks :=
    [⟨0, [0], [⟨1, [1, 2]⟩], true, false, .npu⟩, ⟨1, [1], [⟨2, [3]⟩], false, false, .cpu⟩,
      ⟨2, [1], [⟨3, [3]⟩], false, false, .cpu⟩, ⟨3, [2, 3], [⟨4, []⟩], false, true, .npu⟩]
  modelInputs := [0]
  lastOutputOrder := [4]

theorem diamond_consistent : diamond.Consistent where
  nonempty := by decide
  nodup := by decide
  acyclic := ⟨_, .refl _, by simp [diamond, Graph.Topological, Task.outputNames]⟩
  topological := by simp [diamond, Graph.Topological, Task.outputNames]
  owner := by decide
  notInput := by decide
  usersConsume := by decide
  consumersUse := by decide
  hasInput := by decide
  heads := by decide

/-- The two tasks in the middle complete together, and both completions look at the last task. -/
def diamondRun : Job ℕ ℕ :=
  play diamond (init diamond (.startJob 16 96)) <|
    [(Choice.thread 0, 2), (.complete 0 32, 1), (.thread 0, 11), (.complete 0 48, 1),
      (.complete 0 64, 1), (.thread 1, 1), (.thread 0, 1), (.thread 1, 1), (.thread 0, 7),
      (.complete 0 80, 1), (.thread 0, 1)].flatMap fun p => List.replicate p.2 p.1

theorem diamondRun_reachable :
    Relation.ReflTransGen (Step diamond (· ≠ 0)) (init diamond (.startJob 16 96)) diamondRun := by
  refine play_run _ _ fun i ptr hmem => ?_
  have hptr : i = 0 ∧ ptr = 32 ∨ i = 0 ∧ ptr = 48 ∨ i = 0 ∧ ptr = 64 ∨ i = 0 ∧ ptr = 80 := by
    simpa [List.mem_replicate] using hmem
  omega

theorem task_order_diamond : .allComplete ∈ diamondRun.log ∧
    (∀ t, diamondRun.log.count (.issued t) ≤ 1) ∧ diamondRun.log.count .allComplete ≤ 1 := by
  have hstart : (Thread.startJob 16 96).Starts diamond := trivial
  have horder := task_order diamond_consistent hstart diamondRun_reachable
  exact ⟨by decide +kernel, horder.1, horder.2.2.2.1⟩

end Job
end DxRt.Inference
