import DxRt.Inference.Order

/-! No job gets stuck, unless `startJob` leaves out a task or loses an output.

    A task that is IDLE with all its inputs there is still to be looked at by some thread: the
    completion that brings its last input looks at it afterwards. Only `startJob` breaks this, in two
    ways. It enters a model input that other tasks share, but sends the head alone, and a task that
    reads model inputs only is the successor of none. And it lets a head that is flagged as tail
    write to the user's buffer, where a CPU head leaves the outputs that are no model outputs, so
    that a task that reads one waits for it. -/

set_option linter.unusedSectionVars false

namespace DxRt.Inference
variable {τ ν : Type*} [DecidableEq τ] [DecidableEq ν]

/-- The thread is before the critical section of its start function. -/
def Thread.isStart : Thread τ ν → Bool
  | .startJob _ _ => true
  | .startMultiInputJob _ _ => true
  | _ => false

/-- The tasks a thread may set a status of or send. -/
def Thread.tasks (g : Graph τ ν) (th : Thread τ ν) : List (Task τ ν) :=
  match th with
  | .startHead head _ => [head]
  | th => th.held.toList ++ th.pending g

/-- The data pointers given to the start function are not null. -/
def Thread.NonNull : Thread τ ν → Prop
  | .startJob inputPtr _ => inputPtr ≠ 0
  | .startMultiInputJob inputTensors _ => ∀ pair ∈ inputTensors, pair.2 ≠ 0
  | _ => True

namespace Job
variable {g : Graph τ ν} {s s' : Job τ ν} {t u : Task τ ν} {x : ν} {direct : Option (Task τ ν)}
variable {before after : List (Thread τ ν)} {th : Thread τ ν} {next : Option (Thread τ ν)}
  {todo : List (Task τ ν)} {caller : Caller} {found : List (Option ℕ)}

/-! ### How the engine starts a job -/

/-- A call of `Run` or `RunAsync` with one buffer (`splitPtrs` are the parts of it, should it be
    split) and the user's output buffer (0 for none), or of `RunMultiInput` with one buffer per
    input, where the output buffer plays no part before the job is complete. -/
inductive Call (ν : Type*)
  | run (inputPtr : ℕ) (splitPtrs : List ℕ) (outputPtr : ℕ)
  | runMultiInput (inputTensors : List (ν × ℕ))

/-- The start function the engine calls. -/
def Call.start (g : Graph τ ν) (order : List τ) : Call ν → Thread τ ν
  | .run inputPtr splitPtrs outputPtr =>
    if g.shouldAutoSplitInput ∧ inputPtr ≠ 0 then
      .startMultiInputJob (g.modelInputs.zip splitPtrs) order
    else .startJob inputPtr outputPtr
  | .runMultiInput inputTensors => .startMultiInputJob inputTensors order

/-- Every model input is given, and no pointer is null. -/
def Call.Valid (g : Graph τ ν) : Call ν → Prop
  | .run inputPtr splitPtrs _ =>
    inputPtr ≠ 0 ∧ splitPtrs.length = g.modelInputs.length ∧ ∀ p ∈ splitPtrs, p ≠ 0
  | .runMultiInput inputTensors =>
    (inputTensors.map Prod.fst).Perm g.modelInputs ∧ ∀ pair ∈ inputTensors, pair.2 ≠ 0

/-- A CPU head writes to the user's buffer, and a task reads an output that has no place there. -/
def LosesOutput (g : Graph τ ν) (head : Task τ ν) (outputPtr : ℕ) : Prop :=
  outputPtr ≠ 0 ∧ head.isTail = true ∧ head.processor = .cpu ∧
    (∃ x ∈ head.outputNames, x ∈ g.lastOutputOrder) ∧
    ∃ x ∈ head.outputNames, x ∉ g.lastOutputOrder ∧ ∃ t ∈ g.tasks, x ∈ t.inputs

/-- The start function leads to every task: it is `startMultiInputJob`, or every task besides the
    head reads from a task and the head loses no output that is read. -/
def Call.Covers (g : Graph τ ν) : Call ν → Prop
  | .run _ _ outputPtr =>
    g.shouldAutoSplitInput = true ∨
      (∀ t ∈ g.tasks, g.head = some t ∨ g.HasProducer t) ∧
        ∀ head, g.head = some head → ¬ LosesOutput g head outputPtr
  | .runMultiInput _ => True

/-- No request is outstanding and no thread is in the code of the job. -/
def Quiescent (s : Job τ ν) : Prop := s.outstanding = [] ∧ s.threads = []

/-- Every task is DONE and `onAllRequestComplete` has been called. -/
def Complete (g : Graph τ ν) (s : Job τ ν) : Prop :=
  (∀ t ∈ g.tasks, s.taskStatus t.name = some .done) ∧ .allComplete ∈ s.log

/-- What holds, with the invariant, once the start function has entered its inputs. -/
structure Started (g : Graph τ ν) (direct : Option (Task τ ν)) (s : Job τ ν) : Prop where
  notStart : ∀ th ∈ s.threads, th.isStart = false
  nonNull : ∀ x p, s.tensors x = some p → p ≠ 0
  foundData : ∀ t found todo caller, .send t found todo caller ∈ s.threads → missingPtr found = false
  hasStatus : ∀ t ∈ g.tasks, (s.taskStatus t.name).isSome
  busyIssued : ∀ t ∈ g.tasks, s.taskStatus t.name = some .busy → .issued t ∈ s.log
  inputsThere : ∀ t ∈ g.tasks, direct ≠ some t → ∀ x ∈ t.inputs, x ∈ g.modelInputs →
    (s.tensors x).isSome
  stored : ∀ u ∈ g.tasks, .completed u ∈ s.log → ∀ x ∈ u.outputNames,
    (∃ t ∈ g.tasks, x ∈ t.inputs) → (s.tensors x).isSome
  noLost : ∀ t ∈ g.tasks, s.taskStatus t.name = some .idle → s.inputsAvailable t = true →
    (direct.isSome → g.HasProducer t) → ∃ th ∈ s.threads, t ∈ th.pending g

/-! ### Quiescent states -/

/-- Unless it is left out, a task whose producers have completed has completed. -/
theorem Started.completed (hg : g.Described) (h : Inv g direct s) (hs : Started g direct s)
    (hq : Quiescent s) (hcond : ∀ t ∈ g.tasks, direct = some t ∨ (direct.isSome → g.HasProducer t)) :
    ∀ t ∈ g.tasks, .completed t ∈ s.log := by
  have hdone : ∀ t, .issued t ∈ s.log → .completed t ∈ s.log := by
    intro t hissued
    by_contra hncompleted
    have hmem := (h.outstandingIff t).mpr ⟨hissued, hncompleted⟩
    simp [hq.1] at hmem
  refine hg.induction fun t ht hin => ?_
  by_cases hdt : direct = some t
  · have hcount := h.directCount
    rw [hq.2, List.countP_nil] at hcount
    refine hdone t ?_
    by_contra hnissued
    rw [if_pos ⟨t, hdt, hnissued⟩] at hcount
    omega
  · have havailable : s.inputsAvailable t = true := by
      refine List.all_eq_true.mpr fun x hx => ?_
      rcases hin x hx with hmodel | ⟨u, hu, hxu, hcompleted⟩
      · exact hs.inputsThere t ht hdt x hx hmodel
      · exact hs.stored u hu hcompleted x hxu ⟨t, ht, hx⟩
    obtain ⟨status, hstatus⟩ := Option.isSome_iff_exists.mp (hs.hasStatus t ht)
    cases status with
    | idle =>
      obtain ⟨th, hth, -⟩ := hs.noLost t ht hstatus havailable ((hcond t ht).resolve_left hdt)
      simp [hq.2] at hth
    | ready =>
      have hcount := h.heldCount t ht
      rw [hq.2, List.countP_nil, if_pos hstatus] at hcount
      omega
    | busy => exact hdone t (hs.busyIssued t ht hstatus)
    | done => exact (h.doneIff t ht).mp hstatus

theorem Started.complete_of_quiescent (hg : g.Described) (h : Inv g direct s)
    (hs : Started g direct s) (hq : Quiescent s)
    (hcond : ∀ t ∈ g.tasks, direct = some t ∨ (direct.isSome → g.HasProducer t)) :
    Complete g s := by
  have hcompleted := hs.completed hg h hq hcond
  refine ⟨fun t ht => (h.doneIff t ht).mpr (hcompleted t ht), ?_⟩
  have hcount := h.lastCount
  have hall : s.doneCount = s.outputCount := by
    rw [h.doneCount, h.outputCount]
    exact List.countP_eq_length.mpr fun t ht => by simpa using hcompleted t ht
  rw [hq.2, if_pos hall, List.countP_nil] at hcount
  exact List.count_pos_iff.mp (by omega)

/-! ### Steps of a thread -/

/-- A thread that is not at a start and has data for what it sends. -/
def Sound (th : Thread τ ν) : Prop :=
  th.isStart = false ∧ ∀ t found todo caller, th = .send t found todo caller → missingPtr found = false

theorem Started.sound (hs : Started g direct s) (hth : th ∈ s.threads) : Sound th := by
  refine ⟨hs.notStart th hth, ?_⟩
  rintro t found todo caller rfl
  exact hs.foundData t found todo caller hth

variable (next) in
theorem sound_replace (hs : Started g direct s) (hth : s.threads = before ++ th :: after)
    (hnext : ∀ th' ∈ next, Sound th') : ∀ th' ∈ before ++ next.toList ++ after, Sound th' := by
  intro th' hmem
  simp only [List.mem_append, Option.mem_toList] at hmem
  rcases hmem with (hb | hn) | ha
  · exact hs.sound (by simp [hth, hb])
  · exact hnext th' hn
  · exact hs.sound (by simp [hth, ha])

variable (next) in
theorem pending_replace (hpending : ∃ th' ∈ before ++ th :: after, t ∈ th'.pending g)
    (hth : t ∈ th.pending g → ∃ th' ∈ next, t ∈ th'.pending g) :
    ∃ th' ∈ before ++ next.toList ++ after, t ∈ th'.pending g := by
  obtain ⟨th', hmem, ht⟩ := hpending
  simp only [List.mem_append, List.mem_cons] at hmem
  rcases hmem with hb | rfl | ha
  · exact ⟨th', by simp [hb], ht⟩
  · obtain ⟨th'', hnext, ht'⟩ := hth ht
    exact ⟨th'', by simpa using .inr (.inl hnext), ht'⟩
  · exact ⟨th', by simp [ha], ht⟩

variable (next) in
/-- A thread goes on without touching the job; it drops a task only if the task is not IDLE or
    lacks an input. -/
theorem Started.move (hs : Started g direct s) (hth : s.threads = before ++ th :: after)
    (hnext : ∀ th' ∈ next, Sound th')
    (hpending : ∀ t, t ∈ th.pending g → s.taskStatus t.name = some .idle →
      s.inputsAvailable t = true → ∃ th' ∈ next, t ∈ th'.pending g) :
    Started g direct { s with threads := before ++ next.toList ++ after } :=
  { hs with
    notStart := fun th' hth' => (sound_replace next hs hth hnext th' hth').1
    foundData := fun t found todo caller hth' =>
      (sound_replace next hs hth hnext _ hth').2 t found todo caller rfl
    noLost := by
      intro t ht hidle havailable hproducer
      have hold := hs.noLost t ht hidle havailable hproducer
      rw [hth] at hold
      exact pending_replace next hold fun hmem => hpending t hmem hidle havailable }

/-- A thread makes a task READY, or BUSY with its request sent. -/
theorem Started.setStatus (hg : g.Described) (hs : Started g direct s)
    (hth : s.threads = before ++ th :: after) (ht : t ∈ g.tasks) {th' : Thread τ ν} {st : Status}
    {log : List (Event τ ν)} {outstanding : List (TaskRequest τ ν)} (hnext : Sound th')
    (hst : st ≠ .idle) (hpending : ∀ u, u ≠ t → u ∈ th.pending g → u ∈ th'.pending g)
    (hlog : s.log ⊆ log) (hcompleted : ∀ u, .completed u ∈ log → .completed u ∈ s.log)
    (hbusy : st = .busy → .issued t ∈ log) :
    Started g direct { s.setStatus t st with
      threads := before ++ [th'] ++ after, log := log, outstanding := outstanding } :=
  { hs with
    notStart := fun th'' hth'' =>
      (sound_replace (some th') hs hth (by simpa using hnext) th'' hth'').1
    foundData := fun t found todo caller hth'' =>
      (sound_replace (some th') hs hth (by simpa using hnext) _ hth'').2 t found todo caller rfl
    hasStatus := by
      intro u hu
      change ((s.setStatus t st).taskStatus u.name).isSome
      rw [taskStatus_setStatus hg ht hu]
      split_ifs
      · rfl
      · exact hs.hasStatus u hu
    busyIssued := by
      intro u hu hub
      change (s.setStatus t st).taskStatus u.name = _ at hub
      rw [taskStatus_setStatus hg ht hu] at hub
      split_ifs at hub with hut
      · subst hut
        exact hbusy (Option.some.inj hub)
      · exact hlog (hs.busyIssued u hu hub)
    stored := fun u hu hu' => hs.stored u hu (hcompleted u hu')
    noLost := by
      intro u hu hidle havailable hproducer
      change (s.setStatus t st).taskStatus u.name = _ at hidle
      rw [taskStatus_setStatus hg ht hu] at hidle
      split_ifs at hidle with hut
      · exact absurd (Option.some.inj hidle) hst
      · have hold := hs.noLost u hu hidle havailable hproducer
        rw [hth] at hold
        refine pending_replace (some th') hold fun hmem => ⟨th', rfl, hpending u hut hmem⟩ }

theorem missingPtr_eq_false {tensors : ν → Option ℕ} {inputs : List ν}
    (h : ∀ x ∈ inputs, ∃ p, tensors x = some p ∧ p ≠ 0) :
    missingPtr (inputs.map tensors) = false := by
  simp only [missingPtr, List.any_map, List.any_eq_false, Function.comp_apply, decide_eq_true_eq]
  intro x hx
  obtain ⟨p, hp, hne⟩ := h x hx
  simpa [hp] using hne

theorem Started.exec_loop (hs : Started g direct s)
    (hth : s.threads = before ++ .loop todo caller :: after) :
    Started g direct { (exec g s (.loop todo caller)).1 with
      threads := before ++ (exec g s (.loop todo caller)).2.toList ++ after } := by
  cases todo with
  | nil =>
    have hmove := hs.move none hth (by simp) (by simp [Thread.pending])
    by_cases hlast : caller = .complete true
    · simp only [Job.exec, if_pos hlast]
      exact
        { hmove with
          busyIssued := fun u hu hbusy => List.mem_cons_of_mem _ (hs.busyIssued u hu hbusy)
          stored := fun u hu hcompleted => hs.stored u hu (by simpa [record] using hcompleted) }
    · simp only [Job.exec, if_neg hlast]
      exact hmove
  | cons t todo =>
    have hcheck := hs.move (some (.check t todo caller)) hth
      (by simp [Sound, Thread.isStart]) fun u hu _ _ => ⟨_, rfl, hu⟩
    cases caller with
    | complete all => exact hcheck
    | start =>
      by_cases hidle : s.taskStatus t.name = some .idle
      · simp only [Job.exec, if_pos hidle]
        exact hcheck
      · simp only [Job.exec, if_neg hidle]
        refine hs.move (some (.loop todo .start)) hth (by simp [Sound, Thread.isStart]) ?_
        intro u hu huidle _
        rcases List.mem_cons.mp hu with rfl | hu
        · exact absurd huidle hidle
        · exact ⟨_, rfl, hu⟩

theorem Started.exec (hg : g.Described) (hd : ∀ h, direct = some h → g.Source h)
    (h : Inv g direct s) (hs : Started g direct s) (hth : s.threads = before ++ th :: after) :
    Started g direct { (exec g s th).1 with
      threads := before ++ (exec g s th).2.toList ++ after } := by
  have hok := h.threadOk_self hth
  have hsound : Sound th := hs.sound (by simp [hth])
  cases th with
  | startJob p q => simp [Sound, Thread.isStart] at hsound
  | startMultiInputJob inputTensors order => simp [Sound, Thread.isStart] at hsound
  | startHead head q =>
    have hmove : Started g direct { s with threads := before ++ (none : Option _).toList ++ after } :=
      hs.move none hth (by simp) (by simp [Thread.pending])
    exact
      { hmove with
        busyIssued := fun t ht hbusy => List.mem_cons_of_mem _ (hs.busyIssued t ht hbusy)
        stored := fun u hu hcompleted =>
          hs.stored u hu (by simpa [Job.exec, inferenceRequest] using hcompleted) }
  | loop todo caller => exact hs.exec_loop hth
  | check t todo caller =>
    have ht := (hok.task t (.inl List.mem_cons_self)).1
    rcases checkAndSetTaskReady_cases s t with ⟨hcheck, hnot⟩ | ⟨hcheck, hidle, havailable⟩
    · simp only [Job.exec, hcheck]
      refine hs.move (some (.loop todo caller)) hth (by simp [Sound, Thread.isStart]) ?_
      intro u hu hidle havailable
      rcases List.mem_cons.mp hu with rfl | hu
      · simp [hidle, havailable] at hnot
      · exact ⟨_, rfl, hu⟩
    · simp only [Job.exec, hcheck]
      refine hs.setStatus hg hth ht (by simp [Sound, Thread.isStart]) (by simp) ?_
        (List.Subset.refl s.log) (fun _ hu => hu) (by simp)
      intro u hut hu
      exact (List.mem_cons.mp hu).resolve_left hut
  | process t todo caller =>
    have hready := h.ready_of_held hth rfl
    simp only [Job.exec, if_pos hready]
    exact hs.move (some (.map t todo caller)) hth (by simp [Sound, Thread.isStart])
      fun u hu _ _ => ⟨_, rfl, hu⟩
  | map t todo caller =>
    have hmove := hs.move (some (.send t (t.inputs.map s.tensors) todo caller)) hth
      (by
        rintro _ ⟨⟩
        refine ⟨rfl, ?_⟩
        rintro _ _ _ _ ⟨⟩
        exact missingPtr_eq_false fun x hx => by
          obtain ⟨p, hp⟩ := Option.isSome_iff_exists.mp (h.inputs_of_held hd hth rfl x hx)
          exact ⟨p, hp, hs.nonNull x p hp⟩)
      fun u hu _ _ => ⟨_, rfl, hu⟩
    exact
      { hmove with
        busyIssued := fun u hu hbusy => List.mem_cons_of_mem _ (hs.busyIssued u hu hbusy)
        stored := fun u hu hcompleted =>
          hs.stored u hu (by simpa [Job.exec, record] using hcompleted) }
  | send t found todo caller =>
    have ht := hok.task t (.inr rfl)
    have hfound := hsound.2 t found todo caller rfl
    have hnmissing : ¬ missingPtr found = true := by simp [hfound]
    simp only [Job.exec, if_neg hnmissing]
    exact hs.setStatus hg hth ht.1 (by simp [Sound, Thread.isStart]) (by simp) (fun u _ hu => hu)
      (List.subset_cons_self _ _) 
      (fun u hu => by simpa [inferenceRequest, Job.setStatus] using hu) fun _ => List.mem_cons_self

/-! ### The completion of a request -/

section
variable {req : TaskRequest τ ν} {ptr : ν → ℕ} {out out' : List (TaskRequest τ ν)}

/-- A task that was not ready before reads an output of the completed one, and its callback looks at
    it; any other task is pending as before. -/
theorem Started.noLost_of_complete (hg : g.Described) (hs : Started g direct s)
    (ht : req.task ∈ g.tasks) (hown : ∀ x ∈ req.outputs, x ∈ req.task.outputNames) (hu : u ∈ g.tasks)
    (hidle : s.taskStatus u.name = some .idle)
    (havailable : (onRequestComplete g { s with outstanding := out } req ptr).inputsAvailable u = true)
    (hproducer : direct.isSome → g.HasProducer u) {b : Bool} :
    ∃ th ∈ .loop (g.nexts req.task) (.complete b) :: s.threads, u ∈ th.pending g := by
  by_cases hreads : ∃ x ∈ req.task.outputNames, x ∈ u.inputs
  · exact ⟨_, List.mem_cons_self, (hg.mem_nexts_iff ht).mpr ⟨hu, hreads⟩⟩
  · have hbefore : s.inputsAvailable u = true := by
      refine List.all_eq_true.mpr fun x hx => ?_
      refine (isSome_onRequestComplete.mp (List.all_eq_true.mp havailable x hx)).resolve_left
        fun hxt => hreads ⟨x, finalOutputs_subset hown hxt, hx⟩
    obtain ⟨th, hth, hpending⟩ := hs.noLost u hu hidle hbefore hproducer
    exact ⟨th, List.mem_cons_of_mem _ hth, hpending⟩

theorem Started.complete (hg : g.Described) (h : Inv g direct s) (hs : Started g direct s)
    (hout : s.outstanding = out ++ req :: out')
    (hkept : ∀ x ∈ req.task.outputNames, (∃ t ∈ g.tasks, x ∈ t.inputs) → x ∈ finalOutputs req)
    (hptr : ∀ x, ptr x ≠ 0) :
    Started g direct (onRequestComplete g { s with outstanding := out ++ out' } req ptr) := by
  have hmem : req ∈ s.outstanding := by simp [hout]
  have ht : req.task ∈ g.tasks := (h.task_outstanding hmem).1
  have hstatus : ∀ u ∈ g.tasks,
      (onRequestComplete g { s with outstanding := out ++ out' } req ptr).taskStatus u.name =
        if u = req.task then some .done else s.taskStatus u.name := fun u hu =>
    taskStatus_onRequestComplete hg ht hu
  exact
    { notStart := List.forall_mem_cons.mpr ⟨rfl, hs.notStart⟩
      nonNull := by
        intro x p hp
        change (if x ∈ finalOutputs req then some (ptr x) else s.tensors x) = some p at hp
        split_ifs at hp
        · exact Option.some.inj hp ▸ hptr x
        · exact hs.nonNull x p hp
      foundData := by
        intro u found todo caller hmem
        change .send u found todo caller ∈ Thread.loop _ _ :: s.threads at hmem
        exact hs.foundData u found todo caller (by simpa using hmem)
      hasStatus := by
        intro u hu
        rw [hstatus u hu]
        split_ifs
        · rfl
        · exact hs.hasStatus u hu
      busyIssued := by
        intro u hu hbusy
        rw [hstatus u hu] at hbusy
        split_ifs at hbusy
        · simp at hbusy
        · exact List.mem_cons_of_mem _ (hs.busyIssued u hu hbusy)
      inputsThere := fun u hu hdu x hx hmodel =>
        isSome_onRequestComplete.mpr (Or.inr (hs.inputsThere u hu hdu x hx hmodel))
      stored := by
        intro u hu hcompleted x hx hread
        refine isSome_onRequestComplete.mpr ?_
        rcases List.mem_cons.mp hcompleted with heq | hcompleted
        · obtain rfl : u = req.task := Event.completed.inj heq
          exact Or.inl (hkept x hx hread)
        · exact Or.inr (hs.stored u hu hcompleted x hx hread)
      noLost := by
        intro u hu hidle havailable hproducer
        rw [hstatus u hu] at hidle
        split_ifs at hidle with hut
        · simp at hidle
        · exact hs.noLost_of_complete hg ht (h.ownOutputs _ hmem) hu hidle havailable hproducer }

end

/-! ### The start -/

theorem insertTensor_nonNull {tensors : ν → Option ℕ} (h : ∀ x p, tensors x = some p → p ≠ 0)
    {y : ν} {q : ℕ} (hq : q ≠ 0) : ∀ x p, insertTensor tensors y q x = some p → p ≠ 0 := by
  intro x p hp
  unfold insertTensor at hp
  split_ifs at hp
  · exact h x p hp
  · by_cases hxy : x = y
    · subst hxy
      simp only [Function.update_self, Option.some.injEq] at hp
      exact hp ▸ hq
    · rw [Function.update_of_ne hxy] at hp
      exact h x p hp

theorem foldl_insertTensor_nonNull {α : Type*} {f : α → ν} {q : α → ℕ} {as : List α}
    (hq : ∀ a ∈ as, q a ≠ 0) {tensors : ν → Option ℕ} (h : ∀ x p, tensors x = some p → p ≠ 0) :
    ∀ x p, as.foldl (fun tensors a => insertTensor tensors (f a) (q a)) tensors x = some p →
      p ≠ 0 := by
  induction as generalizing tensors with
  | nil => exact h
  | cons a as ih =>
    exact ih (fun b hb => hq b (List.mem_cons_of_mem _ hb))
      (insertTensor_nonNull h (hq a List.mem_cons_self))

theorem taskStatus_init {start : Thread τ ν} (ht : t ∈ g.tasks) :
    (init g start).taskStatus t.name = some .idle := by
  have hmem : t.name ∈ g.tasks.map Task.name := List.mem_map_of_mem ht
  simp only [init, if_pos hmem]

/-- A task other than the head shares every model input it reads. -/
theorem isSharedInput_of_reads {head : Task τ ν} (ht : t ∈ g.tasks) (hne : t ≠ head)
    (hx : x ∈ t.inputs) : isSharedInput g head x = true :=
  List.any_eq_true.mpr ⟨t, ht, by simp [hne, hx]⟩

theorem started_startJob (hg : g.Described) {p q : ℕ} (hp : p ≠ 0) :
    Started g g.head { (exec g (init g (.startJob p q)) (.startJob p q)).1 with
      threads := [] ++ (exec g (init g (.startJob p q)) (.startJob p q)).2.toList ++ [] } := by
  obtain ⟨head, hhead, -⟩ := hg.exists_head
  have hsome : ∀ x, ((addSharedInputs g (init g (.startJob p q)) head p).tensors x).isSome ↔
      x ∈ g.modelInputs ∧ isSharedInput g head x := by
    intro x
    rw [isSome_addSharedInputs]
    simp [init]
  simp only [Job.exec, hhead]
  exact
    { notStart := by simp [Thread.isStart]
      nonNull := foldl_insertTensor_nonNull (fun _ _ => hp) (by simp [init])
      foundData := by simp
      hasStatus := fun t ht => by
        change ((init g (.startJob p q)).taskStatus t.name).isSome
        rw [taskStatus_init ht]
        rfl
      busyIssued := fun t ht hbusy => by
        change (init g (.startJob p q)).taskStatus t.name = _ at hbusy
        simp [taskStatus_init ht] at hbusy
      inputsThere := by
        intro t ht hne x hx hmodel
        have htne : t ≠ head := fun heq => hne (by rw [heq])
        exact (hsome x).mpr ⟨hmodel, isSharedInput_of_reads ht htne hx⟩
      stored := by simp [addSharedInputs, init]
      noLost := by
        -- a task that reads from another has an input that no start enters
        intro t ht _ havailable hproducer
        obtain ⟨u, hu, x, hxu, hx⟩ := hproducer rfl
        have hthere := (hsome x).mp (List.all_eq_true.mp havailable x hx)
        exact absurd hthere.1 (hg.notInput u hu x hxu) }

theorem started_startMultiInputJob (hg : g.Described) {inputTensors : List (ν × ℕ)} {order : List τ}
    (hstart : (Thread.startMultiInputJob inputTensors order).Starts g)
    (hnonNull : ∀ pair ∈ inputTensors, pair.2 ≠ 0) :
    let start := Thread.startMultiInputJob inputTensors order
    Started g none { (exec g (init g start) start).1 with
      threads := [] ++ (exec g (init g start) start).2.toList ++ [] } := by
  intro start
  exact
    { notStart := by simp [start, Job.exec, Thread.isStart]
      nonNull := foldl_insertTensor_nonNull hnonNull (by simp [init])
      foundData := by simp [start, Job.exec]
      hasStatus := fun t ht => by
        change ((init g start).taskStatus t.name).isSome
        rw [taskStatus_init ht]
        rfl
      busyIssued := fun t ht hbusy => by
        change (init g start).taskStatus t.name = _ at hbusy
        simp [taskStatus_init ht] at hbusy
      inputsThere := by
        intro t ht _ x hx hmodel
        exact isSome_addInputs.mpr (.inr (hstart.1.symm.subset hmodel))
      stored := by simp [start, Job.exec, addInputs, init]
      noLost := by
        intro t ht _ _ _
        refine ⟨.loop (order.filterMap g.findTask) .start, by simp [start, Job.exec], ?_⟩
        exact List.mem_filterMap.mpr
          ⟨t.name, hstart.2.symm.subset (List.mem_map_of_mem ht), hg.findTask_name ht⟩ }

/-! ### The outputs of the requests -/

/-- Where `startJob` puts the outputs of the head. -/
def Thread.outputPtr : Thread τ ν → ℕ
  | .startJob _ outputPtr => outputPtr
  | .startHead _ outputPtr => outputPtr
  | _ => 0

/-- Outputs are prepared for the request of `startJob` only. -/
structure Prepared (g : Graph τ ν) (direct : Option (Task τ ν)) (outputPtr : ℕ) (s : Job τ ν) :
    Prop where
  threads : ∀ th ∈ s.threads, th.isDirect = true → Thread.outputPtr th = outputPtr
  outstanding : ∀ req ∈ s.outstanding, direct = some req.task ∧ req = headRequest g req.task outputPtr ∨
    direct ≠ some req.task ∧ req.outputs = []

/-- What a step of a thread sends, and what it makes of `startJob`. -/
theorem exec_sends (g : Graph τ ν) (s : Job τ ν) (th : Thread τ ν) :
    (∀ th' ∈ (exec g s th).2, th'.isDirect = true →
      th.isDirect = true ∧ Thread.outputPtr th' = Thread.outputPtr th) ∧
    ∀ req ∈ (exec g s th).1.outstanding, req ∈ s.outstanding ∨
      (∃ head q, th = .startHead head q ∧ req = headRequest g head q) ∨
      th.held = some req.task ∧ req.outputs = [] := by
  cases th with
  | startJob p q =>
    cases hhead : g.head <;> simp +contextual [exec, hhead, addSharedInputs, Thread.isDirect,
      Thread.outputPtr]
  | startHead head q =>
    refine ⟨by simp [exec], fun req hreq => ?_⟩
    rcases List.mem_cons.mp hreq with rfl | hreq
    · exact .inr (.inl ⟨head, q, rfl, rfl⟩)
    · exact .inl hreq
  | startMultiInputJob inputTensors order => simp +contextual [exec, addInputs, Thread.isDirect]
  | loop todo caller =>
    cases todo with
    | nil => by_cases hlast : caller = .complete true <;> simp +contextual [exec, hlast, record]
    | cons t todo =>
      cases caller with
      | complete all => simp +contextual [exec, Thread.isDirect]
      | start =>
        by_cases hidle : s.taskStatus t.name = some .idle <;>
          simp +contextual [exec, hidle, Thread.isDirect]
  | check t todo caller =>
    rcases checkAndSetTaskReady_cases s t with ⟨hcheck, -⟩ | ⟨hcheck, -, -⟩ <;>
      simp +contextual [exec, hcheck, Thread.isDirect, setStatus]
  | process t todo caller =>
    by_cases hready : s.taskStatus t.name = some .ready <;>
      simp +contextual [exec, hready, Thread.isDirect]
  | map t todo caller => simp +contextual [exec, record, Thread.isDirect]
  | send t found todo caller =>
    by_cases hmissing : missingPtr found = true
    · simp +contextual [exec, hmissing, Thread.isDirect, setStatus]
    · refine ⟨by simp [exec, hmissing, Thread.isDirect], fun req hreq => ?_⟩
      simp only [exec, if_neg hmissing] at hreq
      rcases List.mem_cons.mp hreq with rfl | hreq
      · exact .inr (.inr ⟨rfl, rfl⟩)
      · exact .inl hreq

theorem Prepared.exec (hd : ∀ h, direct = some h → g.Source h) (h : Inv g direct s) {q : ℕ}
    (hp : Prepared g direct q s) (hth : s.threads = before ++ th :: after) :
    Prepared g direct q { (exec g s th).1 with
      threads := before ++ (exec g s th).2.toList ++ after } := by
  obtain ⟨hnext, hsent⟩ := exec_sends g s th
  have hok := h.threadOk_self hth
  have hself : th ∈ s.threads := by simp [hth]
  constructor
  · intro th' hmem hdirect
    simp only [List.mem_append, Option.mem_toList] at hmem
    rcases hmem with (hb | hnew) | ha
    · exact hp.threads th' (by simp [hth, hb]) hdirect
    · obtain ⟨hdirect, hptr⟩ := hnext th' hnew hdirect
      exact hptr.trans (hp.threads th hself hdirect)
    · exact hp.threads th' (by simp [hth, ha]) hdirect
  · intro req hreq
    rcases hsent req hreq with hreq | ⟨head, q', rfl, rfl⟩ | ⟨hheld, houtputs⟩
    · exact hp.outstanding req hreq
    · obtain rfl : q' = q := hp.threads _ hself rfl
      exact .inl ⟨hok.startHead head q' rfl, rfl⟩
    · exact .inr ⟨Inv.direct_ne hd hok (.inr hheld), houtputs⟩

theorem Prepared.run (hg : g.Described) {start : Thread τ ν} (hstart : start.Starts g)
    (hd : ∀ h, start.direct g = some h → g.Source h) {valid : ℕ → Prop}
    (hrun : Relation.ReflTransGen (Step g valid) (init g start) s) :
    Prepared g (start.direct g) (Thread.outputPtr start) s := by
  induction hrun with
  | refl => exact ⟨by simp [init], by simp [init]⟩
  | @tail s s' hrun hstep ih =>
    have hinv := Inv.run hg hstart hd hrun
    cases hstep with
    | thread hth => exact ih.exec hd hinv hth
    | @complete before after req ptr hout hptr =>
      refine ⟨fun th hth hdirect => ?_, fun req' hreq => ih.outstanding req' ?_⟩
      · rcases List.mem_cons.mp hth with rfl | hth
        · cases hdirect
        · exact ih.threads th hth hdirect
      · have hreq : req' ∈ before ++ after := hreq
        simp only [hout, List.mem_append, List.mem_cons] at hreq ⊢
        tauto

/-- The head keeps what is read, unless it loses it. -/
theorem mem_finalOutputs_headRequest {head : Task τ ν} {q : ℕ} (hkeeps : ¬ LosesOutput g head q)
    (hx : x ∈ head.outputNames) (hread : ∃ t ∈ g.tasks, x ∈ t.inputs) :
    x ∈ finalOutputs (headRequest g head q) := by
  by_contra hnot
  rw [finalOutputs] at hnot
  split_ifs at hnot with hcond
  · obtain ⟨hcpu, hne⟩ := hcond
    have htail : head.isTail = true := by
      by_contra htail
      simp [headRequest, htail] at hne
    have hq : q ≠ 0 := by
      rintro rfl
      simp [headRequest, userOutputs] at hne
    simp only [headRequest, userOutputs, htail, if_true, if_neg hq] at hne hnot
    obtain ⟨y, hy⟩ := List.exists_mem_of_ne_nil _ hne
    obtain ⟨hyout, hymodel⟩ := List.mem_filter.mp hy
    refine hkeeps ⟨hq, htail, hcpu, ⟨y, hyout, of_decide_eq_true hymodel⟩, x, hx, fun hmodel => ?_,
      hread⟩
    exact hnot (List.mem_filter.mpr ⟨hx, decide_eq_true hmodel⟩)
  · exact hnot hx

theorem not_mem_finalOutputs_headRequest {head : Task τ ν} {q : ℕ} (hq : q ≠ 0)
    (htail : head.isTail = true) (hcpu : head.processor = .cpu)
    (hmodel : ∃ y ∈ head.outputNames, y ∈ g.lastOutputOrder) (hx : x ∉ g.lastOutputOrder) :
    x ∉ finalOutputs (headRequest g head q) := by
  obtain ⟨y, hyout, hymodel⟩ := hmodel
  have hmem : y ∈ (headRequest g head q).outputs := by
    simp [headRequest, userOutputs, htail, hq, hyout, hymodel]
  rw [finalOutputs, if_pos ⟨hcpu, List.ne_nil_of_mem hmem⟩]
  simp [headRequest, userOutputs, htail, hq, hx]

theorem Prepared.kept {q : ℕ} (hp : Prepared g direct q s)
    (hkeeps : ∀ head, direct = some head → ¬ LosesOutput g head q) {req : TaskRequest τ ν}
    (hreq : req ∈ s.outstanding) :
    ∀ x ∈ req.task.outputNames, (∃ t ∈ g.tasks, x ∈ t.inputs) → x ∈ finalOutputs req := by
  intro x hx hread
  rcases hp.outstanding req hreq with ⟨hdirect, heq⟩ | ⟨-, houtputs⟩
  · rw [heq]
    exact mem_finalOutputs_headRequest (hkeeps _ hdirect) hx hread
  · rw [finalOutputs, if_neg fun hc => hc.2 houtputs]
    exact hx

/-! ### Runs that are under way -/

/-- Until its first step a job is as `SetInferenceJob` leaves it, afterwards it is started. -/
theorem started_of_run (hg : g.Described) {start : Thread τ ν} (hstart : start.Starts g)
    (hnonNull : start.NonNull) (hd : ∀ h, start.direct g = some h → g.Source h)
    (hkeeps : ∀ head, start.direct g = some head → ¬ LosesOutput g head (Thread.outputPtr start))
    (hrun : Relation.ReflTransGen (Step g (· ≠ 0)) (init g start) s) :
    s = init g start ∨ Started g (start.direct g) s := by
  induction hrun with
  | refl => exact .inl rfl
  | @tail s s' hrun hstep ih =>
    have hinv := Inv.run hg hstart hd hrun
    refine .inr ?_
    rcases ih with rfl | hs
    · cases hstep with
      | @thread before after th hth =>
        obtain ⟨rfl, rfl, rfl⟩ : before = [] ∧ th = start ∧ after = [] := by
          simpa [init, List.singleton_eq_append_iff] using hth
        cases th with
        | startJob p q => exact started_startJob hg hnonNull
        | startMultiInputJob inputTensors order =>
          exact started_startMultiInputJob hg hstart hnonNull
        | _ => simp [Thread.Starts] at hstart
      | complete hout _ => simp [init] at hout
    · cases hstep with
      | thread hth => exact hs.exec hg hd hinv hth
      | @complete before after req ptr hout hptr =>
        have hreq : req ∈ s.outstanding := by simp [hout]
        have hkept := (Prepared.run hg hstart hd hrun).kept hkeeps hreq
        exact hs.complete hg hinv hout hkept hptr

/-! ### Every run -/

theorem Call.start_ok {order : List τ} (horder : order.Perm (g.tasks.map Task.name)) {call : Call ν}
    (hcall : call.Valid g) : (call.start g order).Starts g ∧ (call.start g order).NonNull := by
  cases call with
  | run inputPtr splitPtrs outputPtr =>
    obtain ⟨hptr, hlength, hsplit⟩ := hcall
    by_cases hauto : g.shouldAutoSplitInput ∧ inputPtr ≠ 0
    · simp only [Call.start, if_pos hauto, Thread.Starts, Thread.NonNull]
      rw [List.map_fst_zip hlength.ge]
      exact ⟨⟨.refl _, horder⟩, fun pair hpair => hsplit _ (List.of_mem_zip hpair).2⟩
    · simp only [Call.start, if_neg hauto]
      exact ⟨trivial, hptr⟩
  | runMultiInput inputTensors => exact ⟨⟨hcall.1, horder⟩, hcall.2⟩

/-! ### Tasks that are left out -/

/-- A task that is not the head and reads from no task is looked at by no thread. -/
structure LeftOut (g : Graph τ ν) (t : Task τ ν) (s : Job τ ν) : Prop where
  threads : ∀ th ∈ s.threads, ∀ u ∈ th.tasks g, u ∈ g.tasks ∧ u ≠ t
  outstanding : ∀ req ∈ s.outstanding, req.task ∈ g.tasks ∧ req.task ≠ t
  idle : s.taskStatus t.name = some .idle

/-- What a step of a thread does to tasks: it sets the status of and sends only its own, and goes on
    with these or the head. -/
theorem exec_frame (g : Graph τ ν) (s : Job τ ν) (th : Thread τ ν) :
    (∀ th' ∈ (exec g s th).2, ∀ u ∈ th'.tasks g, u ∈ th.tasks g ∨ g.head = some u) ∧
    (∀ req ∈ (exec g s th).1.outstanding, req ∈ s.outstanding ∨ req.task ∈ th.tasks g) ∧
    (∀ name, (∀ u ∈ th.tasks g, u.name ≠ name) →
      (exec g s th).1.taskStatus name = s.taskStatus name) := by
  cases th with
  | startJob p q =>
    cases hhead : g.head with
    | none => simp +contextual [exec, hhead]
    | some head => simp +contextual [exec, hhead, addSharedInputs, Thread.tasks]
  | startHead head q => simp +contextual [exec, inferenceRequest, headRequest, Thread.tasks]
  | startMultiInputJob inputTensors order =>
    refine ⟨?_, fun u hu => .inl hu, fun _ _ => rfl⟩
    rintro _ ⟨⟩ u hu
    exact .inl hu
  | loop todo caller =>
    cases todo with
    | nil => by_cases hlast : caller = .complete true <;> simp +contextual [exec, hlast, record]
    | cons t todo =>
      cases caller with
      | complete all => simp +contextual [exec, Thread.tasks, Thread.held, Thread.pending]
      | start =>
        by_cases hidle : s.taskStatus t.name = some .idle <;>
          simp +contextual [exec, hidle, Thread.tasks, Thread.held, Thread.pending]
  | check t todo caller =>
    rcases checkAndSetTaskReady_cases s t with ⟨hcheck, -⟩ | ⟨hcheck, -, -⟩
    · simp +contextual [exec, hcheck, Thread.tasks, Thread.held, Thread.pending]
    · simp +contextual [exec, hcheck, Thread.tasks, Thread.held, Thread.pending, setStatus,
        Function.update_of_ne, eq_comm]
  | process t todo caller =>
    by_cases hready : s.taskStatus t.name = some .ready <;>
      simp +contextual [exec, hready, Thread.tasks, Thread.held, Thread.pending]
  | map t todo caller => simp +contextual [exec, record, Thread.tasks, Thread.held, Thread.pending]
  | send t found todo caller =>
    by_cases hmissing : missingPtr found = true
    · simp +contextual [exec, hmissing, Thread.tasks, Thread.held, Thread.pending, setStatus,
        Function.update_of_ne, eq_comm]
    · simp +contextual [exec, hmissing, Thread.tasks, Thread.held, Thread.pending, setStatus,
        inferenceRequest, Function.update_of_ne, eq_comm]

theorem LeftOut.exec (hg : g.Described) (ht : t ∈ g.tasks) (hhead : g.head ≠ some t)
    (h : LeftOut g t s) (hth : s.threads = before ++ th :: after) :
    LeftOut g t { (exec g s th).1 with
      threads := before ++ (exec g s th).2.toList ++ after } := by
  obtain ⟨htasks, hout, hstatus⟩ := exec_frame g s th
  have hown := h.threads th (by simp [hth])
  constructor
  · intro th' hmem u hu
    simp only [List.mem_append, Option.mem_toList] at hmem
    rcases hmem with (hb | hnext) | ha
    · exact h.threads th' (by simp [hth, hb]) u hu
    · rcases htasks th' hnext u hu with hu | hu
      · exact hown u hu
      · refine ⟨List.mem_of_find?_eq_some hu, ?_⟩
        rintro rfl
        exact hhead hu
    · exact h.threads th' (by simp [hth, ha]) u hu
  · intro req hreq
    exact (hout req hreq).elim (h.outstanding req) (hown req.task)
  · refine (hstatus t.name fun u hu hname => ?_).trans h.idle
    exact (hown u hu).2 (hg.eq_of_name (hown u hu).1 ht hname)

theorem LeftOut.complete (hg : g.Described) (hsource : g.Source t) (h : LeftOut g t s)
    {req : TaskRequest τ ν} {before after : List (TaskRequest τ ν)}
    (hout : s.outstanding = before ++ req :: after) (ptr : ν → ℕ) :
    LeftOut g t (onRequestComplete g { s with outstanding := before ++ after } req ptr) := by
  obtain ⟨hu, hut⟩ := h.outstanding req (by simp [hout])
  constructor
  · intro th hth v hv
    rcases List.mem_cons.mp hth with rfl | hth
    · have hnext : v ∈ g.nexts req.task := by simpa [Thread.tasks, Thread.held, Thread.pending] using hv
      refine ⟨((hg.mem_nexts_iff hu).mp hnext).1, ?_⟩
      rintro rfl
      exact hsource.2 (hg.hasProducer_of_nexts hu hnext)
    · exact h.threads th hth v hv
  · intro v hv
    have hv : v ∈ before ++ after := hv
    refine h.outstanding v ?_
    simp only [hout, List.mem_append, List.mem_cons] at hv ⊢
    tauto
  · change (s.setStatus req.task .done).taskStatus t.name = _
    rw [taskStatus_setStatus hg hu hsource.1, if_neg (Ne.symm hut)]
    exact h.idle

theorem LeftOut.run (hg : g.Described) (hsource : g.Source t) (hhead : g.head ≠ some t) {p q : ℕ}
    {valid : ℕ → Prop} (hrun : Relation.ReflTransGen (Step g valid) (init g (.startJob p q)) s) :
    LeftOut g t s := by
  refine Run.invariant (fun s s' hstep h => ?_) hrun ⟨?_, by simp [init], taskStatus_init hsource.1⟩
  · cases hstep with
    | thread hth => exact h.exec hg hsource.1 hhead hth
    | complete hout _ => exact h.complete hg hsource hout _
  · simp [init, Thread.tasks, Thread.held, Thread.pending]

/-! ### An output that is lost -/

/-- Besides completions only the start functions enter tensors, those of model inputs. -/
theorem exec_tensors (hok : ThreadOk g direct th) (hsome : ((exec g s th).1.tensors x).isSome) :
    (s.tensors x).isSome ∨ x ∈ g.modelInputs := by
  cases th with
  | startJob p q =>
    cases hhead : g.head with
    | none => exact .inl (by simpa [Job.exec, hhead] using hsome)
    | some head =>
      simp only [Job.exec, hhead] at hsome
      exact (isSome_addSharedInputs.mp hsome).imp_right And.left
  | startMultiInputJob inputTensors order =>
    refine (isSome_addInputs.mp hsome).imp_right fun hmem => ?_
    obtain ⟨pair, hpair, rfl⟩ := List.mem_map.mp hmem
    exact hok.inputs inputTensors order rfl pair hpair
  | startHead head q => exact .inl hsome
  | loop todo caller =>
    refine .inl ?_
    cases todo with
    | nil => by_cases hlast : caller = .complete true <;> simpa [Job.exec, hlast, record] using hsome
    | cons t todo =>
      cases caller with
      | complete all => exact hsome
      | start =>
        by_cases hidle : s.taskStatus t.name = some .idle <;> simpa [Job.exec, hidle] using hsome
  | check t todo caller =>
    rcases checkAndSetTaskReady_cases s t with ⟨hcheck, -⟩ | ⟨hcheck, -, -⟩ <;>
      exact .inl (by simpa [Job.exec, hcheck, Job.setStatus] using hsome)
  | process t todo caller =>
    by_cases hready : s.taskStatus t.name = some .ready <;>
      exact .inl (by simpa [Job.exec, hready] using hsome)
  | map t todo caller => exact .inl hsome
  | send t found todo caller =>
    by_cases hmissing : missingPtr found = true <;>
      exact .inl (by simpa [Job.exec, hmissing, Job.setStatus, inferenceRequest] using hsome)

/-- What the request of the head does not keep is never entered. -/
theorem tensors_of_lost (hg : g.Described) {head : Task τ ν} {p q : ℕ} (hhead : g.head = some head)
    (hsource : g.Source head) (hx : x ∈ head.outputNames)
    (hlost : x ∉ finalOutputs (headRequest g head q)) {valid : ℕ → Prop}
    (hrun : Relation.ReflTransGen (Step g valid) (init g (.startJob p q)) s) :
    s.tensors x = none := by
  have hd : ∀ h, (Thread.startJob p q).direct g = some h → g.Source h := fun h hh => by
    obtain rfl := Option.some.inj (hhead.symm.trans hh)
    exact hsource
  have hstart : (Thread.startJob p q : Thread τ ν).Starts g := trivial
  induction hrun with
  | refl => rfl
  | @tail s s' hrun hstep ih =>
    have hinv := Inv.run hg hstart hd hrun
    cases hstep with
    | thread hth =>
      refine Option.not_isSome_iff_eq_none.mp fun hsome => ?_
      rcases exec_tensors (hinv.threadOk_self hth) hsome with hsome | hmodel
      · simp [ih] at hsome
      · exact hg.notInput head hsource.1 x hx hmodel
    | @complete before after req ptr hout hptr =>
      have hreq : req ∈ s.outstanding := by simp [hout]
      have hnot : x ∉ finalOutputs req := by
        intro hmem
        rcases (Prepared.run hg hstart hd hrun).outstanding req hreq with ⟨hdirect, heq⟩ | ⟨hne, -⟩
        · obtain htask : head = req.task := Option.some.inj (hhead.symm.trans hdirect)
          rw [← htask] at heq
          exact hlost (heq ▸ hmem)
        · have hissued := ((hinv.outstandingIff req.task).mp (List.mem_map_of_mem hreq)).1
          have hown := finalOutputs_subset (hinv.ownOutputs req hreq) hmem
          refine hne (hhead.trans (congrArg some ?_))
          exact hg.owner head hsource.1 _ (hinv.issuedStatus _ hissued).1 x hx hown
      exact (if_neg hnot).trans ih

/-- The reader of an output that is lost never runs. -/
theorem not_complete_of_loses (hg : g.Described) {head : Task τ ν} {p q : ℕ}
    (hhead : g.head = some head) (hsource : g.Source head) (hloses : LosesOutput g head q)
    {valid : ℕ → Prop} (hrun : Relation.ReflTransGen (Step g valid) (init g (.startJob p q)) s) :
    ¬ Complete g s := by
  obtain ⟨hq, htail, hcpu, hmodel, x, hx, hnot, t, ht, hin⟩ := hloses
  rintro ⟨hdone, -⟩
  have hd : ∀ h, (Thread.startJob p q).direct g = some h → g.Source h := fun h hh => by
    obtain rfl := Option.some.inj (hhead.symm.trans hh)
    exact hsource
  have hstarts : (Thread.startJob p q : Thread τ ν).Starts g := trivial
  have hinv := Inv.run hg hstarts hd hrun
  have hne : (Thread.startJob p q).direct g ≠ some t := fun hh =>
    (hd t hh).2 ⟨head, hsource.1, x, hx, hin⟩
  have hsome := hinv.takenInputs t ht hne (by simp [hdone t ht]) x hin
  have hlost := not_mem_finalOutputs_headRequest hq htail hcpu hmodel hnot
  simp [tensors_of_lost hg hhead hsource hx hlost hrun] at hsome

/-! ### Every run -/

/-- If the start function leads to every task, a quiescent job is complete. -/
theorem complete_of_run (hg : g.Described) {start : Thread τ ν} (hstart : start.Starts g)
    (hnonNull : start.NonNull)
    (hcond : start.direct g = none ∨ (∀ t ∈ g.tasks, g.head = some t ∨ g.HasProducer t) ∧
      ∀ head, g.head = some head → ¬ LosesOutput g head (Thread.outputPtr start))
    (hrun : Relation.ReflTransGen (Step g (· ≠ 0)) (init g start) s) (hq : Quiescent s) :
    Complete g s := by
  have hd : ∀ h, start.direct g = some h → g.Source h := by
    intro h hh
    rcases hcond with hnone | ⟨hreached, -⟩
    · simp [hnone] at hh
    · exact hg.source_head hreached (direct_head hh)
  have hkeeps : ∀ head, start.direct g = some head →
      ¬ LosesOutput g head (Thread.outputPtr start) := by
    intro head hh
    rcases hcond with hnone | ⟨-, hkeeps⟩
    · simp [hnone] at hh
    · exact hkeeps head (direct_head hh)
  have hs : Started g (start.direct g) s := by
    refine (started_of_run hg hstart hnonNull hd hkeeps hrun).resolve_left ?_
    rintro rfl
    simp [Quiescent, init] at hq
  refine hs.complete_of_quiescent hg (Inv.run hg hstart hd hrun) hq fun t ht => ?_
  rcases hcond with hnone | ⟨hreached, -⟩
  · simp [hnone]
  · rcases hreached t ht with hhead | hproducer
    · cases hdirect : start.direct g with
      | none => simp
      | some h => exact .inl (by rw [← hhead, direct_head hdirect])
    · exact .inr fun _ => hproducer

/-- A job with no request outstanding and no thread in its code is complete, unless it was started
    by `startJob` and either a task besides the head reads model inputs only, or the head loses an
    output that a task reads: then it never is. -/
theorem no_stuck_job (hg : g.Described) {order : List τ}
    (horder : order.Perm (g.tasks.map Task.name)) {call : Call ν} (hcall : call.Valid g)
    (hrun : Relation.ReflTransGen (Step g (· ≠ 0)) (init g (call.start g order)) s)
    (hq : Quiescent s) : Complete g s ↔ call.Covers g := by
  obtain ⟨hstart, hnonNull⟩ := Call.start_ok horder hcall
  cases call with
  | run inputPtr splitPtrs outputPtr =>
    by_cases hauto : g.shouldAutoSplitInput = true
    · simp only [Call.start, if_pos (⟨hauto, hcall.1⟩ : _ ∧ _)] at hrun hstart hnonNull
      exact iff_of_true (complete_of_run hg hstart hnonNull (.inl rfl) hrun hq) (.inl hauto)
    · have hno : ¬ (g.shouldAutoSplitInput = true ∧ inputPtr ≠ 0) := fun h => hauto h.1
      simp only [Call.start, if_neg hno] at hrun hstart hnonNull
      constructor
      · intro hcomplete
        have hreached : ∀ t ∈ g.tasks, g.head = some t ∨ g.HasProducer t := by
          intro t ht
          by_contra hnot
          rw [not_or] at hnot
          have hidle := (LeftOut.run hg ⟨ht, hnot.2⟩ hnot.1 hrun).idle
          simp [hcomplete.1 t ht] at hidle
        refine .inr ⟨hreached, fun head hhead hloses => ?_⟩
        exact not_complete_of_loses hg hhead (hg.source_head hreached hhead) hloses hrun hcomplete
      · intro hcovers
        exact complete_of_run hg hstart hnonNull (.inr (hcovers.resolve_left hauto)) hrun hq
  | runMultiInput inputTensors =>
    exact iff_of_true (complete_of_run hg hstart hnonNull (.inl rfl) hrun hq) trivial

theorem no_stuck_job_diamond : Quiescent diamondRun ∧ Complete diamond diamondRun := by
  have hq : Quiescent diamondRun := ⟨by decide +kernel, by decide +kernel⟩
  have horder : [0, 1, 2, 3].Perm (diamond.tasks.map Task.name) := .of_eq rfl
  have hcall : (Call.run 16 [16] 96).Valid diamond := ⟨by decide, rfl, by decide⟩
  refine ⟨hq, (no_stuck_job diamond_consistent.toDescribed horder hcall ?_ hq).mpr ?_⟩
  · exact diamondRun_reachable
  · refine .inr ⟨by simp [diamond, Graph.head, Graph.HasProducer, Task.outputNames], ?_⟩
    rintro head hhead ⟨-, htail, -⟩
    obtain rfl := Option.some.inj hhead
    cases htail

/-! ### Jobs that get stuck -/

/-- Two tasks that read the one model input. -/
def twoHeads : Graph ℕ ℕ where
  tasks := [⟨0, [0], [⟨1, []⟩], true, true, .npu⟩, ⟨1, [0], [⟨2, []⟩], true, true, .npu⟩]
  modelInputs := [0]
  lastOutputOrder := [1, 2]

theorem twoHeads_consistent : twoHeads.Consistent where
  nonempty := by decide
  nodup := by decide
  acyclic := ⟨_, .refl _, by simp [twoHeads, Graph.Topological]⟩
  topological := by simp [twoHeads, Graph.Topological]
  owner := by decide
  notInput := by decide
  usersConsume := by decide
  consumersUse := by decide
  hasInput := by decide
  heads := by decide

def twoHeadsRun : Job ℕ ℕ :=
  play twoHeads (init twoHeads (.startJob 16 0)) [.thread 0, .thread 0, .complete 0 32, .thread 0]

/-- A CPU task with a model output and an output that the other task reads. -/
def tailHead : Graph ℕ ℕ where
  tasks := [⟨0, [0], [⟨1, []⟩, ⟨2, [1]⟩], true, true, .cpu⟩, ⟨1, [2], [⟨3, []⟩], false, true, .npu⟩]
  modelInputs := [0]
  lastOutputOrder := [1, 3]

theorem tailHead_consistent : tailHead.Consistent where
  nonempty := by decide
  nodup := by decide
  acyclic := ⟨_, .refl _, by simp [tailHead, Graph.Topological, Task.outputNames]⟩
  topological := by simp [tailHead, Graph.Topological, Task.outputNames]
  owner := by decide
  notInput := by decide
  usersConsume := by decide
  consumersUse := by decide
  hasInput := by decide
  heads := by decide

def tailHeadRun : Job ℕ ℕ :=
  play tailHead (init tailHead (.startJob 16 96))
    [.thread 0, .thread 0, .complete 0 96, .thread 0, .thread 0, .thread 0]

/-- `Run` sends the first task; when it has completed nothing is left to do. The second task of
    `twoHeads` is the successor of none, the one of `tailHead` misses its input. -/
theorem second_task_stuck :
    (twoHeads.Consistent ∧ (Call.run 16 [16] 0).Valid twoHeads ∧
      Relation.ReflTransGen (Step twoHeads (· ≠ 0))
        (init twoHeads ((Call.run 16 [16] 0).start twoHeads [0, 1])) twoHeadsRun ∧
      Quiescent twoHeadsRun ∧ ¬ Complete twoHeads twoHeadsRun ∧
      twoHeadsRun.taskStatus 1 = some .idle) ∧
    tailHead.Consistent ∧ (Call.run 16 [16] 96).Valid tailHead ∧
      Relation.ReflTransGen (Step tailHead (· ≠ 0))
        (init tailHead ((Call.run 16 [16] 96).start tailHead [0, 1])) tailHeadRun ∧
      Quiescent tailHeadRun ∧ ¬ Complete tailHead tailHeadRun ∧
      tailHeadRun.taskStatus 1 = some .idle ∧ tailHeadRun.tensors 2 = none := by
  refine ⟨⟨twoHeads_consistent, ⟨by decide, rfl, by decide⟩, play_run _ _ (by simp),
    ⟨by decide +kernel, by decide +kernel⟩, ?_, by decide +kernel⟩, tailHead_consistent,
    ⟨by decide, rfl, by decide⟩, play_run _ _ (by simp),
    ⟨by decide +kernel, by decide +kernel⟩, ?_, by decide +kernel, by decide +kernel⟩
  · rintro ⟨-, hall⟩
    revert hall
    decide +kernel
  · rintro ⟨-, hall⟩
    revert hall
    decide +kernel

end Job
end DxRt.Inference
