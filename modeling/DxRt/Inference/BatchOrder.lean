import DxRt.Inference.BatchCounts

/-! lib/inference_engine.cpp: the order of a batch.

    Run `k` of a batch is started by the call of `runSubBatch` that `k` falls into. It holds a job
    of its own from `pick` until its callback is over, and finds its place in the result through the
    batch index of that job, which nobody else writes meanwhile. The buffers are looked up by `k`;
    the user argument is looked up by the index within the sub-batch, so that from the second
    sub-batch on a run gets the user argument of a run of the first. -/

namespace DxRt.Inference
variable {ω : Type*}

/-! ### What the caller asks for -/

namespace BatchArgs

/-- The run of index `k`, with the elements `k` of the three vectors. -/
def wanted (a : BatchArgs) (k : ℕ) : Option RunArgs := do
  let userArg ← if a.userArgs.length = 0 then some 0 else a.userArgs[k]?
  let inputPtr ← a.inputBuffers[k]?
  let outputPtr ← a.outputBuffers[k]?
  return ⟨inputPtr, userArg, outputPtr, k⟩

/-- The run of index `k`, as its sub-batch starts it. -/
def started (a : BatchArgs) (k : ℕ) : Option RunArgs :=
  a.runArgs (k / SUB_BATCH_MAX_COUNT * SUB_BATCH_MAX_COUNT) (k % SUB_BATCH_MAX_COUNT)

variable {a : BatchArgs} {args : RunArgs} {k startIndex i total : ℕ}

/-- The runs of a sub-batch have the indices from its start on. -/
theorem started_add (hstart : SUB_BATCH_MAX_COUNT ∣ startIndex) (hi : i < SUB_BATCH_MAX_COUNT) :
    a.started (startIndex + i) = a.runArgs startIndex i := by
  obtain ⟨n, rfl⟩ := hstart
  rw [started, Nat.mul_add_mod, Nat.mod_eq_of_lt hi, Nat.mul_add_div (by decide),
    Nat.div_eq_of_lt hi, Nat.add_zero, Nat.mul_comm]

theorem batchIndex_runArgs (h : a.runArgs startIndex i = some args) :
    args.batchIndex = startIndex + i := by
  rw [runArgs] at h
  split_ifs at h
  all_goals
    obtain ⟨userArg, -, h⟩ := Option.bind_eq_some_iff.mp h
    obtain ⟨inputPtr, -, h⟩ := Option.bind_eq_some_iff.mp h
    obtain ⟨outputPtr, -, h⟩ := Option.bind_eq_some_iff.mp h
    obtain rfl := Option.some.inj h
    rfl

theorem batchIndex_started (h : a.started k = some args) : args.batchIndex = k :=
  (batchIndex_runArgs h).trans (Nat.div_add_mod' k _)

theorem batchIndex_wanted (h : a.wanted k = some args) : args.batchIndex = k := by
  rw [wanted] at h
  split_ifs at h
  all_goals
    obtain ⟨userArg, -, h⟩ := Option.bind_eq_some_iff.mp h
    obtain ⟨inputPtr, -, h⟩ := Option.bind_eq_some_iff.mp h
    obtain ⟨outputPtr, -, h⟩ := Option.bind_eq_some_iff.mp h
    obtain rfl := Option.some.inj h
    rfl

/-- Only the user argument can be another one. -/
theorem started_eq_wanted_iff (h : a.Fits total) (hk : k < total) :
    a.started k = a.wanted k ↔ a.userArgs[k]? = a.userArgs[k % SUB_BATCH_MAX_COUNT]? := by
  have hindex : k / SUB_BATCH_MAX_COUNT * SUB_BATCH_MAX_COUNT + k % SUB_BATCH_MAX_COUNT = k :=
    Nat.div_add_mod' k _
  have hinput := List.getElem?_eq_getElem (hk.trans_le h.inputBuffers)
  have houtput := List.getElem?_eq_getElem (hk.trans_le h.outputBuffers)
  simp only [started, runArgs, wanted, hindex, hinput, houtput, Option.bind_eq_bind]
  rcases h.userArgs with hempty | huser
  · simp [List.length_eq_zero_iff.mp hempty]
  · have hmod : k % SUB_BATCH_MAX_COUNT < a.userArgs.length :=
      (Nat.mod_le _ _).trans_lt (hk.trans_le huser)
    have hne : a.userArgs.length ≠ 0 := by omega
    simp [hne, List.getElem?_eq_getElem (hk.trans_le huser), List.getElem?_eq_getElem hmod, eq_comm]

end BatchArgs

/-- Exactly one run was started for every index, with the arguments of that index, and its outputs
    are the result of that index. -/
structure Batch.IndexCorrect (a : BatchArgs) (s : Batch ω) : Prop where
  started : (s.runs.map fun r => some r.args).Perm
    ((List.range a.inputBuffers.length).map a.wanted)
  stored : ∀ r ∈ s.runs, ∃ outputs, r.outputs = some outputs ∧
    s.result[r.args.batchIndex]? = some (some outputs)

/-! ### What a run has -/

/-- The callback has stored its outputs. -/
def Callback.stored : Callback ω → Bool
  | .count | .loadCount | .loadCompleted | .notify | .finished | .over => true
  | _ => false

/-- The outputs that the callback was called with. -/
def Callback.outputs? : Callback ω → Option ω
  | .userCallback outputs | .getBatchIndex outputs | .store outputs _ => some outputs
  | _ => none

/-- The job is given back. -/
def Callback.released : Callback ω → Bool
  | .over => true
  | _ => false

theorem Callback.counted_of_released {c : Callback ω} (h : c.released = true) :
    c.counted = true := by
  cases c <;> simp_all [Callback.released, Callback.counted]

/-- Run `k` has the arguments of its index; it holds a job with that index until its callback is
    over, and its outputs are stored there. -/
structure BatchRun.Indexed (a : BatchArgs) (jobs : JobId → JobSlot) (result : List (Option ω))
    (k : ℕ) (r : BatchRun ω) : Prop where
  args : a.started k = some r.args
  holds : r.callback.released = false → (jobs r.job).holder = some k ∧ (jobs r.job).batchIndex = k
  carries : ∀ outputs ∈ r.callback.outputs?, r.outputs = some outputs
  index : ∀ outputs batchIndex, r.callback = .store outputs batchIndex → batchIndex = k
  stored : r.callback.stored = true →
    ∃ outputs, r.outputs = some outputs ∧ result[k]? = some (some outputs)

/-- What `runAsync` has prepared for the run `startIndex + i`, the next one. -/
def Main.Prepared (a : BatchArgs) (startIndex : ℕ) (jobs : JobId → JobSlot) (next : ℕ) :
    Main → Prop
  | .pick i args => a.runArgs startIndex i = some args
  | .prepare i args j => a.runArgs startIndex i = some args ∧ (jobs j).holder = some next
  | .start i args j => a.runArgs startIndex i = some args ∧ (jobs j).holder = some next ∧
      (jobs j).batchIndex = args.batchIndex
  | _ => True

variable {a : BatchArgs} {jobs jobs' : JobId → JobSlot} {result result' : List (Option ω)}
  {r : BatchRun ω} {k n startIndex : ℕ} {main : Main}

/-- The job of a run is left alone. -/
theorem BatchRun.Indexed.of_jobs (h : r.Indexed a jobs result k)
    (hjobs : ∀ j, (jobs j).holder = some k → jobs' j = jobs j) : r.Indexed a jobs' result k where
  args := h.args
  holds hheld := by
    obtain ⟨hholder, hindex⟩ := h.holds hheld
    rw [hjobs r.job hholder]
    exact ⟨hholder, hindex⟩
  carries := h.carries
  index := h.index
  stored := h.stored

/-- The result of a run is left alone. -/
theorem BatchRun.Indexed.of_result (h : r.Indexed a jobs result k)
    (hresult : result'[k]? = result[k]?) : r.Indexed a jobs result' k where
  args := h.args
  holds := h.holds
  carries := h.carries
  index := h.index
  stored hs := by
    obtain ⟨outputs, houtputs, hresult'⟩ := h.stored hs
    exact ⟨outputs, houtputs, hresult.trans hresult'⟩

/-- The callback of a run goes on, and does not give the job back. -/
theorem BatchRun.Indexed.next (h : r.Indexed a jobs result k) (callback : Callback ω)
    (hheld : r.callback.released = false)
    (hcarries : ∀ outputs ∈ callback.outputs?, r.outputs = some outputs)
    (hindex : ∀ outputs batchIndex, callback = .store outputs batchIndex → batchIndex = k)
    (hstored : callback.stored = true →
      ∃ outputs, r.outputs = some outputs ∧ result[k]? = some (some outputs)) :
    BatchRun.Indexed a jobs result k { r with callback := callback } :=
  ⟨h.args, fun _ => h.holds hheld, hcarries, hindex, hstored⟩

/-- After the outputs are stored nothing is stored any more. -/
theorem BatchRun.Indexed.goOn (h : r.Indexed a jobs result k) (callback : Callback ω)
    (hheld : r.callback.released = false) (hstored : r.callback.stored = true)
    (hnext : callback.stored = true) :
    BatchRun.Indexed a jobs result k { r with callback := callback } := by
  refine h.next callback hheld ?_ ?_ fun _ => h.stored hstored
  · cases callback <;> simp_all [Callback.stored, Callback.outputs?]
  · rintro outputs batchIndex rfl
    simp [Callback.stored] at hnext

theorem Main.Prepared.of_jobs (h : main.Prepared a startIndex jobs n)
    (hjobs : ∀ j, (jobs j).holder = some n → jobs' j = jobs j) :
    main.Prepared a startIndex jobs' n := by
  cases main with
  | prepare i args j =>
    obtain ⟨hargs, hholder⟩ := h
    exact ⟨hargs, by rw [hjobs j hholder]; exact hholder⟩
  | start i args j =>
    obtain ⟨hargs, hholder, hindex⟩ := h
    refine ⟨hargs, ?_⟩
    rw [hjobs j hholder]
    exact ⟨hholder, hindex⟩
  | _ => exact h

theorem Main.begun_le {batchCount : ℕ} (h : main.within batchCount) :
    main.begun batchCount ≤ batchCount := by
  cases main <;> simp only [Main.within, Main.begun, le_refl] at h ⊢ <;> omega

namespace Batch
variable {s t : Batch ω} {total : ℕ} {r' : BatchRun ω}

structure Ordered (a : BatchArgs) (total : ℕ) (s : Batch ω) : Prop where
  length : s.runs.length = s.startIndex + s.main.begun s.batchCount
  runs : ∀ (k : ℕ) (r : BatchRun ω), s.runs[k]? = some r → r.Indexed a s.jobs s.result k
  prepared : s.main.Prepared a s.startIndex s.jobs s.runs.length
  used : ∀ j, (s.jobs j).holder ≠ none → (s.jobs j).useFlag = true
  size : s.result.length = total
  done : s.main.over = true → s.todo = []

theorem Ordered.init {pool : JobId → Bool × ℤ} (h : a.interpret = .ok (.batch total)) :
    Ordered a total (init a pool : Batch ω) := by
  rw [Batch.init, h]
  constructor <;> simp [checked, idle, Main.begun, Main.Prepared, Main.over]

/-! ### What the steps keep -/

theorem Ordered.lt_length (hk : s.runs[k]? = some r) : k < s.runs.length :=
  (List.getElem?_eq_some_iff.mp hk).1

theorem Ordered.lt_total (h : Ordered a total s) (hc : Counted total s)
    (hk : s.runs[k]? = some r) : k < total := by
  have hlt := lt_length hk
  have hlength := h.length
  have hbegun := Main.begun_le hc.within
  have hle := hc.covers.le
  omega

/-- The thread in `Run` moves without starting a run. -/
theorem Ordered.move (h : Ordered a total s) (main : Main) (isCompleted : Bool)
    (hbegun : main.begun s.batchCount = s.main.begun s.batchCount)
    (hprepared : main.Prepared a s.startIndex s.jobs s.runs.length)
    (hdone : main.over = true → s.todo = []) :
    Ordered a total { s with main := main, isCompleted := isCompleted } where
  length := hbegun ▸ h.length
  runs := h.runs
  prepared := hprepared
  used := h.used
  size := h.size
  done := hdone

/-- A job that no run holds any more changes; it may go to the next run. -/
theorem Ordered.setJob (h : Ordered a total s) (main : Main) {j : JobId} {slot : JobSlot}
    (hfree : ∀ k < s.runs.length, (s.jobs j).holder ≠ some k)
    (hused : slot.holder ≠ none → slot.useFlag = true)
    (hbegun : main.begun s.batchCount = s.main.begun s.batchCount)
    (hprepared : main.Prepared a s.startIndex (Function.update s.jobs j slot) s.runs.length)
    (hdone : main.over = true → s.todo = []) :
    Ordered a total { s.setJob j slot with main := main } where
  length := hbegun ▸ h.length
  runs k r hk := (h.runs k r hk).of_jobs fun j' hj' => by
    refine Function.update_of_ne ?_ _ _
    rintro rfl
    exact hfree k (lt_length hk) hj'
  prepared := hprepared
  used j' := by
    by_cases hj : j' = j
    · subst hj
      simpa [Batch.setJob] using hused
    · simpa [Batch.setJob, hj] using h.used j'
  size := h.size
  done := hdone

/-- A run goes on. -/
theorem Ordered.setRun (h : Ordered a total s)
    (hr' : r'.Indexed a s.jobs s.result k) : Ordered a total (s.setRun k r') where
  length := by
    rw [Batch.setRun, List.length_set]
    exact h.length
  runs k₁ r₁ hk₁ := by
    rw [Batch.setRun, List.getElem?_set] at hk₁
    split_ifs at hk₁ with heq hlt
    · obtain rfl := Option.some.inj hk₁
      exact heq ▸ hr'
    · exact h.runs k₁ r₁ hk₁
  prepared := by
    simp only [Batch.setRun, List.length_set]
    exact h.prepared
  used := h.used
  size := h.size
  done := h.done

theorem Ordered.call (h : Ordered a total s) (hc : Counted total s) {startIndex batchCount : ℕ}
    {todo : List (ℕ × ℕ)} (hmain : s.main = .next)
    (htodo : s.todo = (startIndex, batchCount) :: todo) :
    Ordered a total (s.call startIndex batchCount todo) where
  length := by
    have hcovers := hc.covers
    rw [htodo] at hcovers
    have hlength := h.length
    rw [hmain] at hlength
    simpa [Batch.call, Main.begun, hcovers.1] using hlength
  runs := h.runs
  prepared := trivial
  used := h.used
  size := h.size
  done hmain := by simp [Batch.call, Main.over] at hmain

/-- The run that `startJob` starts has the next index. -/
theorem Ordered.start (h : Ordered a total s) (hc : Counted total s) {i : ℕ} {args : RunArgs}
    {j : JobId} (hmain : s.main = .start i args j) :
    Ordered a total { s with
      runs := s.runs ++ [⟨args, j, s.subBatch, none, .requests⟩], main := .started i } := by
  have hlength := h.length
  have hprepared := h.prepared
  have hwithin := hc.within
  rw [hmain] at hlength hprepared hwithin
  obtain ⟨hargs, hholder, hindex⟩ := hprepared
  have hi : i < SUB_BATCH_MAX_COUNT := Nat.lt_of_lt_of_le hwithin hc.size
  have hnext : s.runs.length = s.startIndex + i := hlength
  refine
    { length := ?_
      runs := fun k r hk => ?_
      prepared := trivial
      used := h.used
      size := h.size
      done := fun hdone => by cases hdone }
  · simp [Main.begun, hnext, Nat.add_assoc]
  · rcases Nat.lt_trichotomy k s.runs.length with hlt | rfl | hgt
    · rw [List.getElem?_append_left hlt] at hk
      exact h.runs k r hk
    · rw [List.getElem?_concat_length, Option.some.injEq] at hk
      subst hk
      exact
        { args := by rw [hnext, BatchArgs.started_add hc.aligned hi, hargs]
          holds := fun _ => ⟨hholder, by
            rw [hindex, BatchArgs.batchIndex_runArgs hargs, hnext]⟩
          carries := fun outputs ho => by cases ho
          index := fun outputs batchIndex hstore => by cases hstore
          stored := fun hs => by cases hs }
    · rw [List.getElem?_eq_none (by simp; omega)] at hk
      cases hk

/-- `pick` gives the next run a job that nobody holds. -/
theorem Ordered.pick (h : Ordered a total s) {i : ℕ} {args : RunArgs} {j : JobId}
    (hmain : s.main = .pick i args) (hfree : (s.jobs j).useFlag = false) :
    Ordered a total { s.setJob j
      { s.jobs j with useFlag := true, holder := some s.runs.length } with
      main := .prepare i args j } := by
  have hnone : (s.jobs j).holder = none := by
    by_contra hsome
    rw [h.used j hsome] at hfree
    cases hfree
  have hprepared := h.prepared
  rw [hmain] at hprepared
  refine h.setJob _ (fun k _ => ?_) (fun _ => rfl) ?_ ⟨hprepared, ?_⟩ (by simp [Main.over])
  · simp [hnone]
  · rw [hmain]
    rfl
  · simp

theorem Ordered.mainStep (h : Ordered a total s) (hc : Counted total s) (hfits : a.Fits total)
    (hstep : s.mainStep a = some t) : Ordered a total t := by
  have hwithin := hc.within
  have hprepared := h.prepared
  cases hmain : s.main <;>
    simp only [Batch.mainStep, hmain, reduceCtorEq, Option.some.injEq] at hstep
  case next =>
    split at hstep
    case h_1 htodo =>
      obtain rfl := Option.some.inj hstep
      exact h.move .returned s.isCompleted (by simp [hmain, Main.begun]) trivial fun _ => htodo
    case h_2 startIndex batchCount todo htodo =>
      obtain rfl := Option.some.inj hstep
      exact h.call hc hmain htodo
  case loop i =>
    simp only [hmain, Main.within] at hwithin
    split_ifs at hstep with hi
    · have hlt : s.startIndex + i < total := by
        have hle := hc.covers.le
        omega
      obtain ⟨args, hargs⟩ := hfits.runArgs hlt
      simp only [hargs, Option.some.injEq] at hstep
      subst hstep
      exact h.move (.pick i args) s.isCompleted (by simp [hmain, Main.begun]) hargs
        (by simp [Main.over])
    · obtain rfl := Option.some.inj hstep
      obtain rfl : i = s.batchCount := by omega
      exact h.move .setCompleted s.isCompleted (by simp [hmain, Main.begun]) trivial
        (by simp [Main.over])
  case prepare i args j =>
    subst hstep
    rw [hmain] at hprepared
    obtain ⟨hargs, hholder⟩ := hprepared
    refine h.setJob _ (fun k hk heq => ?_) (fun hne => h.used j hne) (by simp [hmain, Main.begun])
      ⟨hargs, by simpa using hholder, by simp⟩ (by simp [Main.over])
    rw [hholder, Option.some.injEq] at heq
    omega
  case start i args j =>
    subst hstep
    exact h.start hc hmain
  case started i =>
    subst hstep
    exact h.move (.loop (i + 1)) s.isCompleted (by simp [hmain, Main.begun]) trivial
      (by simp [Main.over])
  case setCompleted =>
    subst hstep
    exact h.move .predicate true (by simp [hmain, Main.begun]) trivial (by simp [Main.over])
  case predicate =>
    subst hstep
    split_ifs
    · exact h.move .next s.isCompleted (by simp [hmain, Main.begun]) trivial (by simp [Main.over])
    · exact h.move .block s.isCompleted (by simp [hmain, Main.begun]) trivial (by simp [Main.over])
  case block =>
    subst hstep
    exact h.move .asleep s.isCompleted (by simp [hmain, Main.begun]) trivial (by simp [Main.over])

theorem Ordered.notifyOne (h : Ordered a total s) : Ordered a total s.notifyOne := by
  rw [Batch.notifyOne]
  split_ifs with hmain
  · exact h.move .predicate s.isCompleted (by simp [hmain, Main.begun]) trivial
      (by simp [Main.over])
  · exact h

/-- The counter does not matter to the order. -/
theorem Ordered.count (h : Ordered a total s) (completeCount : ℕ) :
    Ordered a total { s with completeCount := completeCount } :=
  ⟨h.length, h.runs, h.prepared, h.used, h.size, h.done⟩

/-- The outputs of run `k` become result `k`. -/
theorem Ordered.store (h : Ordered a total s) (hc : Counted total s) (hk : s.runs[k]? = some r)
    {outputs : ω} {batchIndex : ℤ} (hcallback : r.callback = .store outputs batchIndex) :
    Ordered a total ({ s with result := s.result.set k (some outputs) }.setRun k
      { r with callback := .count }) := by
  have hr := h.runs k r hk
  have houtputs : r.outputs = some outputs :=
    hr.carries outputs (by rw [hcallback, Callback.outputs?, Option.mem_some_iff])
  have hlt : k < s.result.length := h.size ▸ h.lt_total hc hk
  exact
    { length := by
        rw [Batch.setRun, List.length_set]
        exact h.length
      runs := fun k₁ r₁ hk₁ => by
        rw [Batch.setRun, List.getElem?_set] at hk₁
        split_ifs at hk₁ with heq
        · obtain rfl := Option.some.inj hk₁
          subst heq
          exact
            { args := hr.args
              holds := fun _ => hr.holds (by rw [hcallback]; rfl)
              carries := fun o ho => by cases ho
              index := fun o b hstore => by cases hstore
              stored := fun _ => ⟨outputs, houtputs, List.getElem?_set_self hlt⟩ }
        · exact (h.runs k₁ r₁ hk₁).of_result (List.getElem?_set_ne heq)
      prepared := by
        simp only [Batch.setRun, List.length_set]
        exact h.prepared
      used := h.used
      size := by
        simp only [Batch.setRun, List.length_set]
        exact h.size
      done := h.done }

/-- The job of run `k` is given back. -/
theorem Ordered.release (h : Ordered a total s) (hk : s.runs[k]? = some r)
    (hcallback : r.callback = .finished) :
    Ordered a total ((s.setJob r.job { s.jobs r.job with useFlag := false, holder := none }).setRun k
      { r with callback := .over }) := by
  have hr := h.runs k r hk
  have hheld := (hr.holds (by rw [hcallback]; rfl)).1
  have hlt := lt_length hk
  have hjobs : ∀ k' ≠ k, ∀ j, (s.jobs j).holder = some k' →
      (Function.update s.jobs r.job { s.jobs r.job with useFlag := false, holder := none }) j =
        s.jobs j := by
    intro k' hne j hj
    refine Function.update_of_ne ?_ _ _
    rintro rfl
    rw [hheld, Option.some.injEq] at hj
    exact hne hj.symm
  exact
    { length := by
        rw [Batch.setRun, List.length_set]
        exact h.length
      runs := fun k₁ r₁ hk₁ => by
        rw [Batch.setRun, List.getElem?_set] at hk₁
        split_ifs at hk₁ with heq
        · obtain rfl := Option.some.inj hk₁
          subst heq
          exact
            { args := hr.args
              holds := fun hnot => by cases hnot
              carries := fun o ho => by cases ho
              index := fun o b hstore => by cases hstore
              stored := fun _ => hr.stored (by rw [hcallback]; rfl) }
        · exact (h.runs k₁ r₁ hk₁).of_jobs (hjobs k₁ (Ne.symm heq))
      prepared := by
        simp only [Batch.setRun, List.length_set]
        exact h.prepared.of_jobs (hjobs _ (by omega))
      used := fun j => by
        by_cases hj : j = r.job
        · subst hj
          simp [Batch.setRun, Batch.setJob]
        · simpa [Batch.setRun, Batch.setJob, hj] using h.used j
      size := h.size
      done := h.done }

theorem Ordered.callbackStep {hits : Bool} {callback : Callback ω} (h : Ordered a total s)
    (hc : Counted total s) (hk : s.runs[k]? = some r)
    (hstep : s.callbackStep r hits = some (callback, t)) :
    Ordered a total (t.setRun k { r with callback := callback }) := by
  have hr := h.runs k r hk
  cases hcallback : r.callback <;>
    simp only [Batch.callbackStep, hcallback, reduceCtorEq, Option.some.injEq, Prod.mk.injEq]
      at hstep
  all_goals obtain ⟨rfl, rfl⟩ := hstep
  case userCallback outputs =>
    refine h.setRun (hr.next _ (by rw [hcallback]; rfl) (fun o ho => ?_) (by simp) (by simp
      [Callback.stored]))
    exact hr.carries o (by rw [hcallback]; exact ho)
  case getBatchIndex outputs =>
    refine h.setRun (hr.next _ (by rw [hcallback]; rfl) (fun o ho => ?_) ?_ (by simp
      [Callback.stored]))
    · exact hr.carries o (by rw [hcallback]; exact ho)
    · rintro o b heq
      obtain ⟨-, rfl⟩ := Callback.store.inj heq
      exact (hr.holds (by rw [hcallback]; rfl)).2
  case store outputs batchIndex =>
    obtain rfl := hr.index outputs batchIndex hcallback
    rw [if_pos (Int.natCast_nonneg k), Int.toNat_natCast]
    exact h.store hc hk hcallback
  case count =>
    have hr' := hr.goOn .loadCount (by rw [hcallback]; rfl) (by rw [hcallback]; rfl) rfl
    split_ifs
    · exact (h.count _).setRun hr'
    · exact h.setRun hr'
  case loadCount =>
    refine h.setRun (hr.goOn _ (by rw [hcallback]; rfl) (by rw [hcallback]; rfl) ?_)
    split_ifs <;> rfl
  case loadCompleted =>
    refine h.setRun (hr.goOn _ (by rw [hcallback]; rfl) (by rw [hcallback]; rfl) ?_)
    split_ifs <;> rfl
  case notify =>
    have hr' := hr.goOn .finished (by rw [hcallback]; rfl) (by rw [hcallback]; rfl) rfl
    split_ifs
    · refine h.notifyOne.setRun ?_
      rw [Batch.notifyOne]
      split_ifs <;> exact hr'
    · exact h.setRun hr'
  case finished => exact h.release hk hcallback

end Batch

/-- A step of a run that fails. -/
def BatchActor.failing : BatchActor ω → Bool
  | .throws | .userThrows _ => true
  | _ => false

namespace Batch
variable {b : BatchActor ω}

/-- A step in which nothing fails. -/
def Step (a : BatchArgs) (s t : Batch ω) : Prop :=
  ∃ b : BatchActor ω, b.failing = false ∧ s.exec a b = some t

theorem Counted.of_step (h : Counted total s) (hfits : a.Fits total) (hstep : Step a s t) :
    Counted total t := by
  obtain ⟨b, hb, hexec⟩ := hstep
  refine h.step hfits hexec ?_ ?_
  · rintro k rfl
    cases hb
  · rintro rfl
    cases hb

theorem Ordered.step (h : Ordered a total s) (hc : Counted total s) (hfits : a.Fits total)
    (hstep : Step a s t) : Ordered a total t := by
  obtain ⟨b, hb, hexec⟩ := hstep
  cases b <;> simp only [Batch.exec] at hexec
  case main => exact h.mainStep hc hfits hexec
  case pick j =>
    split at hexec
    case h_1 i args hmain =>
      split_ifs at hexec with hfree
      obtain rfl := Option.some.inj hexec
      exact h.pick hmain (Bool.eq_false_iff.mpr hfree)
    case h_2 => cases hexec
  case throws => cases hb
  case wakeUp =>
    split_ifs at hexec with hmain
    obtain rfl := Option.some.inj hexec
    have hnotify := h.notifyOne
    rwa [Batch.notifyOne, if_pos hmain] at hnotify
  case complete k outputs =>
    split at hexec
    case h_1 r hk =>
      split at hexec
      case h_1 hcallback =>
        obtain rfl := Option.some.inj hexec
        have hr := h.runs k r hk
        exact h.setRun
          { args := hr.args
            holds := fun _ => hr.holds (by rw [hcallback]; rfl)
            carries := fun o ho => ho
            index := fun o b hstore => by cases hstore
            stored := fun hs => by cases hs }
      case h_2 => cases hexec
    case h_2 => cases hexec
  case userThrows k => cases hb
  case callback k hits =>
    split at hexec
    case h_1 r hk =>
      obtain ⟨⟨callback, s'⟩, hstep, rfl⟩ := Option.map_eq_some_iff.mp hexec
      exact h.callbackStep hc hk hstep
    case h_2 => cases hexec
  case foreign j useFlag batchIndex =>
    split_ifs at hexec with hholder
    obtain rfl := Option.some.inj hexec
    have hprepared : s.main.Prepared a s.startIndex
        (Function.update s.jobs j ⟨useFlag, batchIndex, none⟩) s.runs.length := by
      refine h.prepared.of_jobs fun j' hj' => Function.update_of_ne ?_ _ _
      rintro rfl
      rw [hholder] at hj'
      cases hj'
    exact h.setJob s.main (fun k _ => by simp [hholder]) (by simp) rfl hprepared h.done

theorem Ordered.run (h : a.interpret = .ok (.batch total)) (hfits : a.Fits total)
    {pool : JobId → Bool × ℤ} (hrun : Relation.ReflTransGen (Step a) (Batch.init a pool) s) :
    Counted total s ∧ Ordered a total s := by
  induction hrun with
  | refl => exact ⟨Counted.init h, Ordered.init h⟩
  | tail _ hstep ih => exact ⟨ih.1.of_step hfits hstep, ih.2.step ih.1 hfits hstep⟩

end Batch
end DxRt.Inference
