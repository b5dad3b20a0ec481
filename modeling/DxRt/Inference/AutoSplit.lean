import DxRt.Inference.Progress

/-! lib/inference_engine.cpp: `Run` and `RunAsync` with one buffer for a model of several inputs.

    Both cut the buffer into copies, one per model input, which are locals of the call, and start
    the job with pointers to these. The tasks read them while their requests are outstanding. `Run`
    returns after `Wait`, `RunAsync` returns when the start function has; the copies are gone then.
    That the copies are released is all that is modelled of memory: what else is written goes to
    other buffers. -/

set_option linter.unusedSectionVars false

namespace DxRt.Inference
variable {τ ν : Type*} [DecidableEq τ] [DecidableEq ν]

/-! ### The copies -/

/-- `GetInputTensorSizes`: an input that no task reads is left out. -/
def Graph.inputTensorSizes (g : Graph τ ν) (sizeInBytes : ν → ℕ) : List ℕ :=
  (g.modelInputs.filter fun x => g.tasks.any fun t => x ∈ t.inputs).map sizeInBytes

/-- The loop that fills `splitBuffers`. -/
def splitBuffers (input : List UInt8) : List ℕ → ℕ → List (List UInt8)
  | [], _ => []
  | size :: sizes, offset =>
    (input.drop offset).take size :: splitBuffers input sizes (offset + size)

/-- Copy `i` is the `i`-th consecutive slice. -/
theorem getElem?_splitBuffers (input : List UInt8) : ∀ (sizes : List ℕ) (offset i : ℕ),
    (splitBuffers input sizes offset)[i]? =
      sizes[i]?.map fun size => (input.drop (offset + (sizes.take i).sum)).take size
  | [], _, _ => by simp [splitBuffers]
  | _ :: _, _, 0 => by simp [splitBuffers]
  | size :: sizes, offset, i + 1 => by
    simp [splitBuffers, getElem?_splitBuffers input sizes, Nat.add_assoc]

/-! ### The call -/

/-- The two functions. -/
inductive Entry
  | run
  | runAsync
  deriving DecidableEq

/-- What a call is made with: the caller's buffers at `inputPtr` and `outputPtr`, and where the
    copies are. -/
structure SplitArgs (τ ν : Type*) where
  graph : Graph τ ν
  sizeInBytes : ν → ℕ
  order : List τ
  inputPtr : ℕ
  input : List UInt8
  splitPtrs : List ℕ
  outputPtr : ℕ

/-- The job, and whether the function has returned. -/
structure SplitCall (τ ν : Type*) where
  job : Job τ ν
  returned : Bool

/-- The thread is in `startMultiInputJob`. -/
def Thread.ofStart : Thread τ ν → Bool
  | .startMultiInputJob .. => true
  | .loop _ caller | .check _ _ caller | .process _ _ caller | .map _ _ caller
  | .send _ _ _ caller => caller = .start
  | _ => false

namespace SplitArgs
variable (a : SplitArgs τ ν)

/-- The copies. -/
def buffers : List (List UInt8) := splitBuffers a.input (a.graph.inputTensorSizes a.sizeInBytes) 0

/-- The buffer is split, and the checks of `RunMultiInput` pass: there are as many copies as model
    inputs, and as many names. The copies are apart, and none is empty. -/
structure Accepted : Prop where
  split : a.graph.shouldAutoSplitInput = true
  inputPtr : a.inputPtr ≠ 0
  sizes : (a.graph.inputTensorSizes a.sizeInBytes).length = a.graph.modelInputs.length
  names : a.graph.modelInputs.Nodup
  length : a.splitPtrs.length = a.graph.modelInputs.length
  nodup : a.splitPtrs.Nodup
  nonNull : ∀ p ∈ a.splitPtrs, p ≠ 0
  order : a.order.Perm (a.graph.tasks.map Task.name)

/-- The start function that the engine calls. -/
def start : Thread τ ν :=
  (Job.Call.run a.inputPtr a.splitPtrs a.outputPtr).start a.graph a.order

def init : SplitCall τ ν := ⟨Job.init a.graph a.start, false⟩

/-- The slice of the caller's buffer for model input `i`. -/
def slice (i : ℕ) : List UInt8 :=
  (a.input.drop ((a.graph.modelInputs.take i).map a.sizeInBytes).sum).take
    ((a.graph.modelInputs[i]?.map a.sizeInBytes).getD 0)

end SplitArgs

namespace SplitCall
open Job
variable {a : SplitArgs τ ν} {e : Entry} {s s' : SplitCall τ ν} {t u : Task τ ν}

/-- The function may return: the start function has, and for `Run` the job is complete. -/
def MayReturn (e : Entry) (s : SplitCall τ ν) : Prop :=
  (∀ th ∈ s.job.threads, th.ofStart = false) ∧ (e = .run → .allComplete ∈ s.job.log)

/-- A step of the job, or the return of the function. -/
inductive Step (a : SplitArgs τ ν) (e : Entry) : SplitCall τ ν → SplitCall τ ν → Prop
  | job {s : SplitCall τ ν} {job : Job τ ν} (h : Job.Step a.graph (· ≠ 0) s.job job) :
      Step a e s { s with job := job }
  | leave {s : SplitCall τ ν} (h : s.MayReturn e) : Step a e s { s with returned := true }

/-- The bytes at a copy; `none` when it is gone. -/
def data (a : SplitArgs τ ν) (s : SplitCall τ ν) (ptr : ℕ) : Option (List UInt8) :=
  if s.returned then none else a.buffers[a.splitPtrs.idxOf ptr]?

/-- Every request that is outstanding reads the caller's data: the pointers it was given for model
    inputs lead to their slices. -/
def SeesInput (a : SplitArgs τ ν) (s : SplitCall τ ν) : Prop :=
  ∀ req ∈ s.job.outstanding, ∀ found, .mapped req.task found ∈ s.job.log → ∀ (j i : ℕ) (x : ν),
    req.task.inputs[j]? = some x →
      a.graph.modelInputs[i]? = some x →
        ∃ ptr, found[j]? = some (some ptr) ∧ data a s ptr = some (a.slice i)

end SplitCall

/-! ### The pointers -/

namespace Job
variable {g : Graph τ ν} {s s' : Job τ ν} {t : Task τ ν} {given : ν → Option ℕ}
  {before after : List (Thread τ ν)} {th : Thread τ ν}

/-- A thread that looks through tasks. -/
def Looks : Thread τ ν → Prop
  | .startJob .. | .startHead .. | .startMultiInputJob .. => False
  | _ => True

/-- What a request was given for its inputs, where `given` has the pointers of model inputs. -/
structure Fed (g : Graph τ ν) (given : ν → Option ℕ) (s : Job τ ν) : Prop where
  looks : ∀ th ∈ s.threads, Looks th
  tensors : ∀ x p, given x = some p → s.tensors x = some p
  mapped : ∀ t found, .mapped t found ∈ s.log → ∀ (j : ℕ) (x : ν) (p : ℕ), t.inputs[j]? = some x →
    given x = some p → found[j]? = some (some p)
  sent : ∀ t found todo caller, .send t found todo caller ∈ s.threads → .mapped t found ∈ s.log
  issued : ∀ t, .issued t ∈ s.log → ∃ found, .mapped t found ∈ s.log

/-- A thread goes on, and nothing is logged. -/
theorem Fed.move (h : Fed g given s) (hth : s.threads = before ++ th :: after)
    (next : Option (Thread τ ν)) (hnext : ∀ th' ∈ next, Looks th')
    (hsent : ∀ t found todo caller, next = some (.send t found todo caller) →
      .mapped t found ∈ s.log) (taskStatus : τ → Option Status) :
    Fed g given
      { s with taskStatus := taskStatus, threads := before ++ next.toList ++ after } where
  looks th' hth' := by
    simp only [List.mem_append, Option.mem_toList] at hth'
    rcases hth' with (hb | hnext') | ha
    · exact h.looks th' (by simp [hth, hb])
    · exact hnext th' hnext'
    · exact h.looks th' (by simp [hth, ha])
  tensors := h.tensors
  mapped := h.mapped
  sent t found todo caller hmem := by
    simp only [List.mem_append, Option.mem_toList] at hmem
    rcases hmem with (hb | hnext') | ha
    · exact h.sent t found todo caller (by simp [hth, hb])
    · exact hsent t found todo caller hnext'
    · exact h.sent t found todo caller (by simp [hth, ha])
  issued := h.issued

/-- Something else is logged. -/
theorem Fed.log (h : Fed g given s) {e : Event τ ν}
    (hmapped : ∀ t found, e = .mapped t found → ∀ (j : ℕ) (x : ν) (p : ℕ), t.inputs[j]? = some x →
      given x = some p → found[j]? = some (some p))
    (hissued : ∀ t, e = .issued t → ∃ found, .mapped t found ∈ s.log)
    (outstanding : List (TaskRequest τ ν)) :
    Fed g given { s with outstanding := outstanding, log := e :: s.log } where
  looks := h.looks
  tensors := h.tensors
  mapped t found hmem := by
    rcases List.mem_cons.mp hmem with heq | hmem
    · exact hmapped t found heq.symm
    · exact h.mapped t found hmem
  sent t found todo caller hmem := List.mem_cons_of_mem _ (h.sent t found todo caller hmem)
  issued t hmem := by
    rcases List.mem_cons.mp hmem with heq | hmem
    · obtain ⟨found, hfound⟩ := hissued t heq.symm
      exact ⟨found, List.mem_cons_of_mem _ hfound⟩
    · obtain ⟨found, hfound⟩ := h.issued t hmem
      exact ⟨found, List.mem_cons_of_mem _ hfound⟩

theorem Fed.exec (h : Fed g given s) (hth : s.threads = before ++ th :: after) :
    Fed g given { (exec g s th).1 with
      threads := before ++ (exec g s th).2.toList ++ after } := by
  have hlooks := h.looks th (by simp [hth])
  cases th with
  | startJob p q => exact hlooks.elim
  | startHead head q => exact hlooks.elim
  | startMultiInputJob inputTensors order => exact hlooks.elim
  | loop todo caller =>
    cases todo with
    | nil =>
      by_cases hlast : caller = .complete true
      · simp only [exec, if_pos hlast]
        exact (h.move hth none (by simp) (by simp) _).log (by simp) (by simp) _
      · simp only [exec, if_neg hlast]
        exact h.move hth none (by simp) (by simp) _
    | cons t todo =>
      cases caller with
      | complete all => exact h.move hth _ (by simp [Job.exec, Looks]) (by simp [Job.exec]) _
      | start =>
        by_cases hidle : s.taskStatus t.name = some .idle
        · simp only [exec, if_pos hidle]
          exact h.move hth _ (by simp [Looks]) (by simp) _
        · simp only [exec, if_neg hidle]
          exact h.move hth _ (by simp [Looks]) (by simp) _
  | check t todo caller =>
    rcases checkAndSetTaskReady_cases s t with ⟨hcheck, -⟩ | ⟨hcheck, -, -⟩
    · simp only [exec, hcheck]
      exact h.move hth _ (by simp [Looks]) (by simp) _
    · simp only [exec, hcheck]
      exact h.move hth _ (by simp [Looks]) (by simp) _
  | process t todo caller =>
    by_cases hready : s.taskStatus t.name = some .ready
    · simp only [exec, if_pos hready]
      exact h.move hth _ (by simp [Looks]) (by simp) _
    · simp only [exec, if_neg hready]
      exact h.move hth _ (by simp [Looks]) (by simp) _
  | map t todo caller =>
    have hfound : ∀ (t' : Task τ ν) found,
        Event.mapped t (t.inputs.map s.tensors) = .mapped t' found →
        ∀ (j : ℕ) (x : ν) (p : ℕ), t'.inputs[j]? = some x → given x = some p →
          found[j]? = some (some p) := by
      rintro t' found ⟨⟩ j x p hx hp
      rw [List.getElem?_map, hx, Option.map_some, h.tensors x p hp]
    have hlog := h.log hfound (by simp) s.outstanding
    exact hlog.move hth (some (.send t (t.inputs.map s.tensors) todo caller)) (by simp [Looks])
      (by rintro _ _ _ _ ⟨⟩; exact List.mem_cons_self) _
  | send t found todo caller =>
    have hmapped := h.sent t found todo caller (by simp [hth])
    by_cases hmissing : missingPtr found = true
    · simp only [exec, if_pos hmissing]
      exact h.move hth _ (by simp [Looks]) (by simp) _
    · simp only [exec, if_neg hmissing]
      exact (h.move hth _ (by simp [Looks]) (by simp) _).log (by simp)
        (by rintro _ ⟨⟩; exact ⟨found, hmapped⟩) _

/-- The outputs of a task are no model inputs. -/
theorem Fed.complete (h : Fed g given s) {req : TaskRequest τ ν} {ptr : ν → ℕ}
    {outstanding : List (TaskRequest τ ν)} (houtputs : ∀ x ∈ finalOutputs req, given x = none) :
    Fed g given (onRequestComplete g { s with outstanding := outstanding } req ptr) where
  looks th' hth' := by
    rcases List.mem_cons.mp hth' with rfl | hmem
    · trivial
    · exact h.looks th' hmem
  tensors x p hp := by
    have hx : x ∉ finalOutputs req := fun hx => by simp [houtputs x hx] at hp
    simpa [onRequestComplete, storeOutputs, Job.setStatus, record, hx] using h.tensors x p hp
  mapped t' found hmem := by
    rcases List.mem_cons.mp hmem with heq | hmem
    · cases heq
    · exact h.mapped t' found hmem
  sent t' found todo caller hmem := by
    rcases List.mem_cons.mp hmem with heq | hmem
    · cases heq
    · exact List.mem_cons_of_mem _ (h.sent t' found todo caller hmem)
  issued t' hmem := by
    rcases List.mem_cons.mp hmem with heq | hmem
    · cases heq
    · obtain ⟨found, hfound⟩ := h.issued t' hmem
      exact ⟨found, List.mem_cons_of_mem _ hfound⟩

/-- `insert` leaves the first entry for a name. -/
theorem foldl_insertTensor_zip (x : ν) : ∀ (xs : List ν) (ps : List ℕ) (tensors : ν → Option ℕ),
    (xs.zip ps).foldl (fun tensors pair => insertTensor tensors pair.1 pair.2) tensors x =
      (tensors x).or (if x ∈ xs then ps[xs.idxOf x]? else none)
  | [], ps, tensors => by simp
  | y :: xs, [], tensors => by simp
  | y :: xs, p :: ps, tensors => by
    rw [List.zip_cons_cons, List.foldl_cons, foldl_insertTensor_zip x xs ps]
    rcases eq_or_ne y x with rfl | hne
    · cases hy : tensors y <;> simp [insertTensor, hy]
    · have hsame : insertTensor tensors y p x = tensors x := by
        rw [insertTensor]
        split_ifs
        · rfl
        · exact Function.update_of_ne hne.symm _ _
      simp [hsame, List.idxOf_cons_ne _ hne, hne.symm]

/-- Nothing that is logged is lost. -/
theorem log_exec (g : Graph τ ν) (s : Job τ ν) (th : Thread τ ν) :
    ∀ e ∈ s.log, e ∈ (exec g s th).1.log := by
  intro e he
  cases th with
  | startJob p q => cases hhead : g.head <;> simpa [Job.exec, hhead, addSharedInputs] using he
  | startHead head q => exact List.mem_cons_of_mem _ he
  | startMultiInputJob inputTensors order => exact he
  | loop todo caller =>
    cases todo with
    | nil => by_cases hlast : caller = .complete true <;> simp [Job.exec, hlast, record, he]
    | cons t todo =>
      cases caller with
      | complete all => exact he
      | start => by_cases hidle : s.taskStatus t.name = some .idle <;> simp [Job.exec, hidle, he]
  | check t todo caller =>
    rcases checkAndSetTaskReady_cases s t with ⟨hcheck, -⟩ | ⟨hcheck, -, -⟩ <;>
      simp [Job.exec, hcheck, Job.setStatus, he]
  | process t todo caller =>
    by_cases hready : s.taskStatus t.name = some .ready <;> simp [Job.exec, hready, he]
  | map t todo caller => exact List.mem_cons_of_mem _ he
  | send t found todo caller =>
    by_cases hmissing : missingPtr found = true <;>
      simp [Job.exec, hmissing, Job.setStatus, inferenceRequest, he]

theorem log_step {valid : ℕ → Prop} (hstep : Step g valid s s') : ∀ e ∈ s.log, e ∈ s'.log := by
  cases hstep with
  | thread hth => exact log_exec g s _
  | complete ht hptr => exact fun e he => List.mem_cons_of_mem _ he

/-! ### The start function alone -/

/-- The steps that the start function still takes, at most. -/
def work : Thread τ ν → ℕ
  | .startMultiInputJob _ order => 5 * order.length + 1
  | .loop todo _ => 5 * todo.length
  | .check _ todo _ => 5 * todo.length + 4
  | .process _ todo _ => 5 * todo.length + 3
  | .map _ todo _ => 5 * todo.length + 2
  | .send _ _ todo _ => 5 * todo.length + 1
  | _ => 0

/-- The start function comes closer to its end, and completes no request. -/
theorem exec_ofStart (g : Graph τ ν) (s : Job τ ν) (hstart : th.ofStart = true) :
    (∀ th' ∈ (exec g s th).2, th'.ofStart = true ∧ work th' < work th) ∧
      ∀ t, .completed t ∈ (exec g s th).1.log → .completed t ∈ s.log := by
  cases th with
  | startJob p q => cases hstart
  | startHead head q => cases hstart
  | startMultiInputJob inputTensors order =>
    refine ⟨?_, fun t ht => ht⟩
    rintro _ ⟨⟩
    have hle := List.length_filterMap_le g.findTask order
    exact ⟨rfl, by simp only [work]; omega⟩
  | loop todo caller =>
    obtain rfl : caller = .start := by simpa [Thread.ofStart] using hstart
    cases todo with
    | nil => exact ⟨by simp [Job.exec], fun t ht => by simpa [Job.exec] using ht⟩
    | cons t todo =>
      by_cases hidle : s.taskStatus t.name = some .idle
      · simp only [Job.exec, hidle, if_true, Option.mem_some_iff, forall_eq', Thread.ofStart, work,
          List.length_cons, decide_true, true_and, imp_self, implies_true, and_true]
        omega
      · simp only [Job.exec, hidle, if_false, Option.mem_some_iff, forall_eq', Thread.ofStart, work,
          List.length_cons, decide_true, true_and, imp_self, implies_true, and_true]
        omega
  | check t todo caller =>
    obtain rfl : caller = .start := by simpa [Thread.ofStart] using hstart
    rcases checkAndSetTaskReady_cases s t with ⟨hcheck, -⟩ | ⟨hcheck, -, -⟩
    · simp [Job.exec, hcheck, Thread.ofStart, work]
    · simp [Job.exec, hcheck, Job.setStatus, Thread.ofStart, work]
  | process t todo caller =>
    obtain rfl : caller = .start := by simpa [Thread.ofStart] using hstart
    by_cases hready : s.taskStatus t.name = some .ready <;>
      simp [Job.exec, hready, Thread.ofStart, work]
  | map t todo caller =>
    obtain rfl : caller = .start := by simpa [Thread.ofStart] using hstart
    simp [Job.exec, record, Thread.ofStart, work]
  | send t found todo caller =>
    obtain rfl : caller = .start := by simpa [Thread.ofStart] using hstart
    by_cases hmissing : missingPtr found = true <;>
      simp [Job.exec, hmissing, Job.setStatus, inferenceRequest, Thread.ofStart, work]

theorem step_alone {valid : ℕ → Prop} (hth : s.threads = [th]) :
    Step g valid s { (exec g s th).1 with threads := (exec g s th).2.toList } := by
  have hsplit : s.threads = [] ++ th :: [] := hth
  have hstep : Step g valid s _ := .thread hsplit
  simpa using hstep

/-- The start function can be over before any request is complete. -/
theorem exists_started {valid : ℕ → Prop} (n : ℕ) : ∀ {s : Job τ ν} {th : Thread τ ν},
    s.threads = [th] → th.ofStart = true → work th ≤ n →
    ∃ s', Relation.ReflTransGen (Step g valid) s s' ∧ s'.threads = [] ∧
      ∀ t, .completed t ∈ s'.log → .completed t ∈ s.log := by
  induction n with
  | zero =>
    intro s th hth hstart hn
    obtain ⟨hnext, hlog⟩ := exec_ofStart g s hstart
    have hnone : (Job.exec g s th).2 = none := by
      refine Option.eq_none_iff_forall_not_mem.mpr fun th' hth' => ?_
      have hlower := (hnext th' hth').2
      omega
    exact ⟨_, .single (step_alone hth), by simp [hnone], hlog⟩
  | succ n ih =>
    intro s th hth hstart hn
    obtain ⟨hnext, hlog⟩ := exec_ofStart g s hstart
    have hstep : Step g valid s _ := step_alone hth
    cases hexec : (Job.exec g s th).2 with
    | none => exact ⟨_, .single hstep, by simp [hexec], hlog⟩
    | some th' =>
      obtain ⟨hstart', hlower⟩ := hnext th' hexec
      obtain ⟨s', hrun, hthreads, hlog'⟩ := ih (s := { (Job.exec g s th).1 with
        threads := (Job.exec g s th).2.toList }) (by rw [hexec]; rfl) hstart' (by omega)
      exact ⟨s', .head hstep hrun, hthreads, fun t ht => hlog t (hlog' t ht)⟩

end Job

/-! ### What the tasks see -/

namespace SplitArgs
variable {a : SplitArgs τ ν} {x : ν} {i : ℕ}

/-- The pointer that the job is given for a model input. -/
def given (a : SplitArgs τ ν) (x : ν) : Option ℕ :=
  if x ∈ a.graph.modelInputs then a.splitPtrs[a.graph.modelInputs.idxOf x]? else none

theorem Accepted.start_eq (h : a.Accepted) :
    a.start = .startMultiInputJob (a.graph.modelInputs.zip a.splitPtrs) a.order :=
  if_pos ⟨h.split, h.inputPtr⟩

theorem Accepted.valid (h : a.Accepted) :
    (Job.Call.run a.inputPtr a.splitPtrs a.outputPtr : Job.Call ν).Valid a.graph :=
  ⟨h.inputPtr, h.length, h.nonNull⟩

theorem Accepted.direct_eq (h : a.Accepted) : a.start.direct a.graph = none := by
  rw [h.start_eq]
  rfl

theorem Accepted.given_eq (h : a.Accepted) (hx : a.graph.modelInputs[i]? = some x) :
    ∃ p, a.given x = some p ∧ a.splitPtrs[i]? = some p := by
  obtain ⟨hlt, rfl⟩ := List.getElem?_eq_some_iff.mp hx
  have hidx : a.graph.modelInputs.idxOf a.graph.modelInputs[i] = i := h.names.idxOf_getElem i hlt
  obtain ⟨p, hp⟩ : ∃ p, a.splitPtrs[i]? = some p :=
    ⟨_, List.getElem?_eq_getElem (h.length.symm ▸ hlt)⟩
  exact ⟨p, by rw [given, if_pos (List.getElem_mem hlt), hidx, hp], hp⟩

/-- Every model input has a copy, which is its slice. -/
theorem Accepted.buffers_eq (h : a.Accepted) (hx : a.graph.modelInputs[i]? = some x) :
    a.buffers[i]? = some (a.slice i) := by
  have hall : a.graph.inputTensorSizes a.sizeInBytes = a.graph.modelInputs.map a.sizeInBytes := by
    have hsizes := h.sizes
    rw [Graph.inputTensorSizes, List.length_map, List.length_filter_eq_length_iff] at hsizes
    rw [Graph.inputTensorSizes, List.filter_eq_self.mpr hsizes]
  rw [buffers, hall, getElem?_splitBuffers, List.getElem?_map, hx, Nat.zero_add, slice, hx,
    List.map_take]
  rfl

end SplitArgs

namespace SplitCall
open Job
variable {a : SplitArgs τ ν} {e : Entry} {s s' : SplitCall τ ν} {t u : Task τ ν}

/-- The job of a call runs as a job. -/
theorem run_job (hrun : Relation.ReflTransGen (Step a e) a.init s) :
    Relation.ReflTransGen (Job.Step a.graph (· ≠ 0)) (Job.init a.graph a.start) s.job := by
  induction hrun with
  | refl => exact .refl
  | tail _ hstep ih =>
    cases hstep with
    | job h => exact ih.tail h
    | leave h => exact ih

theorem job_run {job job' : Job τ ν} (returned : Bool)
    (hrun : Relation.ReflTransGen (Job.Step a.graph (· ≠ 0)) job job') :
    Relation.ReflTransGen (Step a e) ⟨job, returned⟩ ⟨job', returned⟩ := by
  induction hrun with
  | refl => exact .refl
  | tail _ hstep ih => exact ih.tail (.job hstep)

/-- `Run` returns after the job is complete. -/
theorem complete_of_returned (hrun : Relation.ReflTransGen (Step a e) a.init s)
    (hret : s.returned = true) : e = .run → .allComplete ∈ s.job.log := by
  induction hrun with
  | refl => cases hret
  | tail _ hstep ih =>
    cases hstep with
    | job h => exact fun he => log_step h _ (ih hret he)
    | leave h => exact h.2

theorem inv_of_run (hg : a.graph.Described) (h : a.Accepted) {job : Job τ ν}
    (hrun : Relation.ReflTransGen (Job.Step a.graph (· ≠ 0)) (Job.init a.graph a.start) job) :
    Inv a.graph none job := by
  have hdirect := h.direct_eq
  have hinv := Inv.run hg (Call.start_ok h.order h.valid).1 (fun t ht => ?_) hrun
  · change Inv a.graph (a.start.direct a.graph) job at hinv
    rwa [hdirect] at hinv
  · change a.start.direct a.graph = some t at ht
    rw [hdirect] at ht
    cases ht

theorem fed_of_run (hg : a.graph.Described) (h : a.Accepted) {job : Job τ ν}
    (hrun : Relation.ReflTransGen (Job.Step a.graph (· ≠ 0)) (Job.init a.graph a.start) job) :
    job = Job.init a.graph a.start ∨ Fed a.graph a.given job := by
  induction hrun with
  | refl => exact .inl rfl
  | tail _ hstep ih =>
    refine .inr ?_
    rcases ih with rfl | hfed
    · cases hstep with
      | @thread before after th hth =>
        obtain ⟨rfl, rfl, rfl⟩ : before = [] ∧ th = a.start ∧ after = [] := by
          simpa [Job.init, List.singleton_eq_append_iff] using hth
        rw [h.start_eq]
        exact
          { looks := by simp [Job.exec, Looks]
            tensors := fun x p hp => by
              refine (foldl_insertTensor_zip x _ _ _).trans ?_
              simpa [Job.init, SplitArgs.given] using hp
            mapped := fun t found hmem => by simp [Job.exec, Job.addInputs, Job.init] at hmem
            sent := by simp [Job.exec]
            issued := fun t hmem => by simp [Job.exec, Job.addInputs, Job.init] at hmem }
      | complete hout _ => simp [Job.init] at hout
    · cases hstep with
      | thread hth => exact hfed.exec hth
      | @complete before after req ptr hout hptr =>
        have hinv := inv_of_run hg h ‹_›
        have hmem := hinv.outstandingIff req.task
        have htask := (hinv.issuedStatus _ (hmem.mp (by simp [hout])).1).1
        have hown := hinv.ownOutputs req (by simp [hout])
        exact hfed.complete fun x hx =>
          if_neg (hg.notInput _ htask x (finalOutputs_subset hown hx))

/-- Until the function returns, the requests read the caller's data. -/
theorem sees_input_inside (hg : a.graph.Described) (h : a.Accepted)
    (hrun : Relation.ReflTransGen (Step a e) a.init s) (hret : s.returned = false) :
    SeesInput a s := by
  intro req hreq found hmem j i x hj hi
  obtain ⟨p, hgiven, hptr⟩ := h.given_eq hi
  rcases fed_of_run hg h (run_job hrun) with hinit | hfed
  · rw [hinit] at hreq
    cases hreq
  · refine ⟨p, hfed.mapped req.task found hmem j x p hj hgiven, ?_⟩
    obtain ⟨hlt, rfl⟩ := List.getElem?_eq_some_iff.mp hptr
    rw [data, hret, if_neg Bool.false_ne_true, h.nodup.idxOf_getElem i hlt]
    exact h.buffers_eq hi

/-- No request of a complete job is outstanding. -/
theorem outstanding_of_complete (hg : a.graph.Described) (h : a.Accepted)
    (hrun : Relation.ReflTransGen (Step a e) a.init s) (hcomplete : .allComplete ∈ s.job.log) :
    s.job.outstanding = [] := by
  have hinv := inv_of_run hg h (run_job hrun)
  refine List.eq_nil_iff_forall_not_mem.mpr fun req hreq => ?_
  obtain ⟨hissued, hopen⟩ := (hinv.outstandingIff req.task).mp (List.mem_map_of_mem hreq)
  have hdone : s.job.doneCount = s.job.outputCount := by
    have hlast := hinv.lastCount
    have hcount := List.count_pos_iff.mpr hcomplete
    by_contra hne
    rw [if_neg hne] at hlast
    omega
  exact hopen (hinv.completed_of_doneCount hdone req.task (hinv.issuedStatus _ hissued).1)

/-- `RunAsync` can return while the request that reads the model inputs is outstanding. -/
theorem exists_unseen (hg : a.graph.Described) (h : a.Accepted) :
    ∃ s, Relation.ReflTransGen (Step a .runAsync) a.init s ∧ ¬ SeesInput a s := by
  have hstart := Call.start_ok h.order h.valid
  obtain ⟨job, hrun, hthreads, hlog⟩ : ∃ job,
      Relation.ReflTransGen (Job.Step a.graph (· ≠ 0)) (Job.init a.graph a.start) job ∧
        job.threads = [] ∧
          ∀ t, .completed t ∈ job.log → .completed t ∈ (Job.init a.graph a.start).log :=
    exists_started _ rfl (by rw [h.start_eq]; rfl) le_rfl
  have hinv := inv_of_run hg h hrun
  have hopen : ∀ t, .completed t ∉ job.log := fun t ht => by simpa [Job.init] using hlog t ht
  have hnot : job ≠ Job.init a.graph a.start := by
    rintro rfl
    cases hthreads
  have hstarted : Started a.graph none job := by
    have hs := (started_of_run hg hstart.1 hstart.2 (fun t ht => ?_) (fun t ht => ?_)
      hrun).resolve_left hnot
    · change Started a.graph (a.start.direct a.graph) job at hs
      rwa [h.direct_eq] at hs
    all_goals
      change a.start.direct a.graph = some t at ht
      rw [h.direct_eq] at ht
      cases ht
  have hfed := (fed_of_run hg h hrun).resolve_left hnot
  obtain ⟨t, ht⟩ := hg.exists_source
  have hmodel : ∀ x ∈ t.inputs, x ∈ a.graph.modelInputs := by
    intro x hx
    refine (hg.input_cases t ht.1 x hx).resolve_right ?_
    rintro ⟨u, hu, hxu⟩
    exact ht.2 ⟨u, hu, x, hxu, hx⟩
  have hissued : .issued t ∈ job.log := by
    obtain ⟨status, hstatus⟩ := Option.isSome_iff_exists.mp (hstarted.hasStatus t ht.1)
    cases status with
    | idle =>
      have havailable : job.inputsAvailable t = true := List.all_eq_true.mpr fun x hx =>
        hstarted.inputsThere t ht.1 (by simp) x hx (hmodel x hx)
      obtain ⟨th, hth, -⟩ := hstarted.noLost t ht.1 hstatus havailable (by simp)
      simp [hthreads] at hth
    | ready =>
      have hcount := hinv.heldCount t ht.1
      rw [hthreads, List.countP_nil, if_pos hstatus] at hcount
      omega
    | busy => exact hstarted.busyIssued t ht.1 hstatus
    | done => exact absurd ((hinv.doneIff t ht.1).mp hstatus) (hopen t)
  obtain ⟨found, hmapped⟩ := hfed.issued t hissued
  obtain ⟨x, hx⟩ := List.exists_mem_of_ne_nil _ (hg.hasInput t ht.1)
  obtain ⟨j, hj⟩ := List.mem_iff_getElem?.mp hx
  obtain ⟨i, hi⟩ := List.mem_iff_getElem?.mp (hmodel x hx)
  refine ⟨⟨job, true⟩, (job_run false hrun).tail (.leave ⟨by simp [hthreads], by simp⟩), ?_⟩
  intro hsees
  obtain ⟨req, hreq, rfl⟩ :=
    List.mem_map.mp ((hinv.outstandingIff t).mpr ⟨hissued, hopen t⟩)
  obtain ⟨p, -, hdata⟩ := hsees req hreq found hmapped j i x hj hi
  simp [data] at hdata

/-- Up to its return, a call that splits the buffer of a model of several inputs lets every request
    read the slices of the caller's buffer. With `Run` this is as long as any request is
    outstanding; `RunAsync` returns too early for some run of every model. -/
theorem sees_input_iff (hg : a.graph.Described) (h : a.Accepted) (e : Entry) :
    (∀ s, Relation.ReflTransGen (Step a e) a.init s → s.returned = false → SeesInput a s) ∧
      ((∀ s, Relation.ReflTransGen (Step a e) a.init s → SeesInput a s) ↔ e = .run) := by
  refine ⟨fun s hrun hret => sees_input_inside hg h hrun hret, fun hall => ?_, ?_⟩
  · cases e with
    | run => rfl
    | runAsync =>
      obtain ⟨s, hrun, hunseen⟩ := exists_unseen hg h
      exact absurd (hall s hrun) hunseen
  · rintro rfl s hrun
    cases hret : s.returned with
    | false => exact sees_input_inside hg h hrun hret
    | true =>
      have hcomplete := complete_of_returned hrun hret rfl
      intro t ht
      rw [outstanding_of_complete hg h hrun hcomplete] at ht
      cases ht

/-- One task that reads two model inputs of one byte. -/
def twoInputs : SplitArgs ℕ ℕ where
  graph := ⟨[⟨0, [0, 1], [⟨2, []⟩], true, true, .npu⟩], [0, 1], [2]⟩
  sizeInBytes _ := 1
  order := [0]
  inputPtr := 16
  input := [7, 8]
  splitPtrs := [32, 48]
  outputPtr := 0

theorem twoInputs_described : twoInputs.graph.Described where
  nonempty := by decide
  nodup := by decide
  acyclic := ⟨_, .refl _, by simp [twoInputs, Graph.Topological]⟩
  owner := by decide
  notInput := by decide
  usersConsume := by decide
  consumersUse := by decide
  hasInput := by decide
  heads := by decide

theorem twoInputs_accepted : twoInputs.Accepted where
  split := by decide
  inputPtr := by decide
  sizes := by decide
  names := by decide
  length := by decide
  nodup := by decide
  nonNull := by decide
  order := .refl _

/-- The request of the task has been sent. -/
def twoInputsSent : SplitCall ℕ ℕ :=
  ⟨Job.play twoInputs.graph (Job.init twoInputs.graph twoInputs.start)
    (List.replicate 7 (.thread 0)), false⟩

theorem sees_input_two_inputs : (twoInputsSent.job.outstanding.map (·.task.name) = [0] ∧
    data twoInputs twoInputsSent 32 = some [7] ∧ data twoInputs twoInputsSent 48 = some [8]) ∧
      SeesInput twoInputs twoInputsSent := by
  have hjob : Relation.ReflTransGen (Job.Step twoInputs.graph (· ≠ 0))
      (Job.init twoInputs.graph twoInputs.start) twoInputsSent.job :=
    Job.play_run _ _ fun i ptr hmem => by simp at hmem
  refine ⟨by decide +kernel, ?_⟩
  exact (sees_input_iff twoInputs_described twoInputs_accepted .run).2.mpr rfl _ (job_run false hjob)

/-- `RunAsync` returns before the request of the only task is done. -/
theorem two_inputs_unseen :
    ¬ ∀ s, Relation.ReflTransGen (Step twoInputs .runAsync) twoInputs.init s →
      SeesInput twoInputs s := by
  intro hall
  obtain ⟨s, hrun, hunseen⟩ := exists_unseen twoInputs_described twoInputs_accepted
  exact hunseen (hall s hrun)

end SplitCall
end DxRt.Inference
