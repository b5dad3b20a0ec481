import DxRt.Inference.BatchOrder

/-! lib/inference_engine.cpp: which results a batch gets.

    A batch in which nothing fails can always be brought to its end: each run in turn gets the first
    job, its requests are done, and its callback goes through before the next run is started. What
    every finished batch does is therefore what the invariant says. -/

namespace DxRt.Inference
variable {ω : Type*}

/-! ### A way to the end -/

/-- The steps that a callback still takes, at most. -/
def Callback.rank : Callback ω → ℕ
  | .requests => 9
  | .userCallback _ => 8
  | .getBatchIndex _ => 7
  | .store .. => 6
  | .count => 5
  | .loadCount => 4
  | .loadCompleted => 3
  | .notify => 2
  | .finished => 1
  | .over => 0

namespace Batch
variable {a : BatchArgs} {s t : Batch ω} {total k i : ℕ} {r : BatchRun ω}

/-- Where `Run` is: what the callbacks leave alone. -/
def place (s : Batch ω) : Main × List (ℕ × ℕ) × ℕ × ℕ × ℕ × Bool :=
  (s.main, s.todo, s.startIndex, s.batchCount, s.subBatch, s.isCompleted)

/-- At most run `k` is not over, and it holds the only job that is in use. -/
structure Serving (s : Batch ω) (k : ℕ) (r : BatchRun ω) : Prop where
  run : s.runs[k]? = some r
  others : ∀ (k' : ℕ) (r' : BatchRun ω), k' ≠ k → s.runs[k']? = some r' →
    r'.callback.released = true
  jobs : ∀ j, (s.jobs j).useFlag = true → j = r.job ∧ r.callback.released = false

/-- Every run is over, and every job is free. -/
structure Quiet (s : Batch ω) : Prop where
  runs : ∀ r ∈ s.runs, r.callback.released = true
  jobs : ∀ j, (s.jobs j).useFlag = false

theorem Serving.quiet (h : Serving s k r) (hover : r.callback.released = true) : Quiet s where
  runs r' hr' := by
    obtain ⟨k', hk'⟩ := List.mem_iff_getElem?.mp hr'
    rcases eq_or_ne k' k with rfl | hne
    · rw [h.run, Option.some.injEq] at hk'
      exact hk' ▸ hover
    · exact h.others k' r' hne hk'
  jobs j := by
    refine Bool.eq_false_iff.mpr fun huse => ?_
    have hheld := (h.jobs j huse).2
    rw [hover] at hheld
    cases hheld

theorem notifyOne_of_awake (hawake : s.main ≠ .asleep) : s.notifyOne = s := if_neg hawake

/-- A callback that is not over has a step, and comes closer to its end. -/
theorem callbackStep_lowers (hrank : r.callback.rank ≠ 0) (hrequests : r.callback ≠ .requests)
    (hawake : s.main ≠ .asleep) : ∃ callback t, s.callbackStep r false = some (callback, t) ∧
      callback.rank < r.callback.rank ∧
      (4 < r.callback.rank → r.callback.rank ≤ callback.rank + 1) ∧
      t.runs = s.runs ∧ t.place = s.place ∧ ∀ j, (t.jobs j).useFlag = true →
        (s.jobs j).useFlag = true ∧ (j = r.job → callback.released = false) := by
  cases hcallback : r.callback <;> simp only [Batch.callbackStep, hcallback]
  case requests => exact absurd hcallback hrequests
  case «over» => simp [hcallback, Callback.rank] at hrank
  case userCallback outputs =>
    exact ⟨_, _, rfl, by simp [Callback.rank], by simp [Callback.rank], rfl, rfl,
      fun j hj => ⟨hj, fun _ => rfl⟩⟩
  case getBatchIndex outputs =>
    exact ⟨_, _, rfl, by simp [Callback.rank], by simp [Callback.rank], rfl, rfl,
      fun j hj => ⟨hj, fun _ => rfl⟩⟩
  case store outputs batchIndex =>
    refine ⟨_, _, rfl, by simp [Callback.rank], by simp [Callback.rank], ?_, ?_,
      fun j hj => ⟨?_, fun _ => rfl⟩⟩
    · split_ifs <;> rfl
    · split_ifs <;> rfl
    · split_ifs at hj <;> exact hj
  case count =>
    refine ⟨_, _, rfl, by simp [Callback.rank], by simp [Callback.rank], ?_, ?_,
      fun j hj => ⟨?_, fun _ => rfl⟩⟩
    · split_ifs <;> rfl
    · split_ifs <;> rfl
    · split_ifs at hj <;> exact hj
  case loadCount =>
    refine ⟨_, _, rfl, ?_, by simp [Callback.rank], rfl, rfl, fun j hj => ⟨hj, fun _ => ?_⟩⟩
    · split_ifs <;> simp [Callback.rank]
    · split_ifs <;> rfl
  case loadCompleted =>
    refine ⟨_, _, rfl, ?_, by simp [Callback.rank], rfl, rfl, fun j hj => ⟨hj, fun _ => ?_⟩⟩
    · split_ifs <;> simp [Callback.rank]
    · split_ifs <;> rfl
  case notify =>
    rw [notifyOne_of_awake hawake, ite_self]
    exact ⟨_, _, rfl, by simp [Callback.rank], by simp [Callback.rank], rfl, rfl,
      fun j hj => ⟨hj, fun _ => rfl⟩⟩
  case finished =>
    refine ⟨_, _, rfl, by simp [Callback.rank], by simp [Callback.rank], rfl, rfl, fun j hj => ?_⟩
    rcases eq_or_ne j r.job with rfl | hne
    · simp [Batch.setJob] at hj
    · exact ⟨by simpa [Batch.setJob, hne] using hj, fun heq => absurd heq hne⟩

/-- The run that is being served goes on. -/
theorem Serving.next [Inhabited ω] (h : Serving s k r) (hrank : r.callback.rank ≠ 0)
    (hawake : s.main ≠ .asleep) : ∃ t r', Step a s t ∧ Serving t k r' ∧ t.place = s.place ∧
      r'.subBatch = r.subBatch ∧ r'.callback.rank < r.callback.rank ∧
      (4 < r.callback.rank → r.callback.rank ≤ r'.callback.rank + 1) := by
  have hlt : k < s.runs.length := (List.getElem?_eq_some_iff.mp h.run).1
  by_cases hrequests : r.callback = .requests
  · refine ⟨s.setRun k { r with outputs := some default, callback := .userCallback default },
      { r with outputs := some default, callback := .userCallback default },
      ⟨.complete k default, rfl, by simp only [Batch.exec, h.run, hrequests]⟩, ?_, rfl, rfl,
      by rw [hrequests]; simp [Callback.rank], by rw [hrequests]; simp [Callback.rank]⟩
    exact
      { run := List.getElem?_set_self hlt
        others := fun k' r' hne hk' =>
          h.others k' r' hne (by rwa [Batch.setRun, List.getElem?_set_ne hne.symm] at hk')
        jobs := fun j hj => ⟨(h.jobs j hj).1, rfl⟩ }
  · obtain ⟨callback, t, hstep, hlower, hnear, hruns, hplace, hjobs⟩ :=
      callbackStep_lowers hrank hrequests hawake
    refine ⟨t.setRun k { r with callback := callback }, { r with callback := callback },
      ⟨.callback k false, rfl, by simp only [Batch.exec, h.run, hstep, Option.map_some]⟩,
      ?_, hplace,
      rfl, hlower, hnear⟩
    exact
      { run := List.getElem?_set_self (hruns ▸ hlt)
        others := fun k' r' hne hk' => h.others k' r' hne
          (by rwa [Batch.setRun, List.getElem?_set_ne hne.symm, hruns] at hk')
        jobs := fun j hj => by
          obtain ⟨huse, hreleased⟩ := hjobs j hj
          obtain ⟨rfl, -⟩ := h.jobs j huse
          exact ⟨rfl, hreleased rfl⟩ }

/-- The run that is being served can be brought to its end. -/
theorem Serving.drain [Inhabited ω] (n : ℕ) : ∀ {s : Batch ω} {r : BatchRun ω}, Serving s k r →
    r.callback.rank ≤ n → s.main ≠ .asleep →
    ∃ t, Relation.ReflTransGen (Step a) s t ∧ Quiet t ∧ t.place = s.place := by
  induction n with
  | zero =>
    intro s r h hn hawake
    refine ⟨s, .refl, h.quiet ?_, rfl⟩
    cases hcallback : r.callback <;> simp [hcallback, Callback.rank] at hn
    rfl
  | succ n ih =>
    intro s r h hn hawake
    rcases eq_or_ne r.callback.rank 0 with hzero | hrank
    · exact ih h (by omega) hawake
    · obtain ⟨t, r', hstep, hserving, hplace, -, hlower, -⟩ := h.next (a := a) hrank hawake
      have hmain : t.main = s.main := congrArg Prod.fst hplace
      obtain ⟨u, hrun, hquiet, hplace'⟩ := ih hserving (by omega) (by rwa [hmain])
      exact ⟨u, .head hstep hrun, hquiet, hplace'.trans hplace⟩

/-- The job that every run of the schedule gets. -/
def firstJob : JobId := ⟨0, by decide⟩

/-- After `pick`, in the turn of the loop for `args`. -/
def picked (s : Batch ω) (i : ℕ) (args : RunArgs) : Batch ω :=
  { s.setJob firstJob { s.jobs firstJob with useFlag := true, holder := some s.runs.length } with
    main := .prepare i args firstJob }

/-- After `SetBatchIndex`. -/
def prepared (s : Batch ω) (i : ℕ) (args : RunArgs) : Batch ω :=
  { (s.picked i args).setJob firstJob
      { (s.picked i args).jobs firstJob with batchIndex := args.batchIndex } with
    main := .start i args firstJob }

/-- After `startJob`. -/
def started (s : Batch ω) (i : ℕ) (args : RunArgs) : Batch ω :=
  { s.prepared i args with
    runs := s.runs ++ [⟨args, firstJob, s.subBatch, none, .requests⟩]
    main := .started i }

theorem place_started (s : Batch ω) (i : ℕ) (args : RunArgs) :
    place { s.started i args with main := .loop (i + 1) } =
      (.loop (i + 1), s.todo, s.startIndex, s.batchCount, s.subBatch, s.isCompleted) := by
  simp only [place, started, prepared, picked, setJob]

/-- One turn of the loop, up to the next. -/
theorem run_started (hmain : s.main = .loop i) (hi : i < s.batchCount) {args : RunArgs}
    (hargs : a.runArgs s.startIndex i = some args) (hfree : (s.jobs firstJob).useFlag = false) :
    Relation.ReflTransGen (Step a) s { s.started i args with main := .loop (i + 1) } := by
  have hpick : Step a s { s with main := .pick i args } :=
    ⟨.main, rfl, by simp [Batch.exec, Batch.mainStep, hmain, hi, hargs]⟩
  have hprepare : Step a { s with main := .pick i args } (s.picked i args) :=
    ⟨.pick firstJob, rfl, by simp [Batch.exec, hfree, picked, Batch.setJob]⟩
  have hindex : Step a (s.picked i args) (s.prepared i args) := ⟨.main, rfl, rfl⟩
  have hstart : Step a (s.prepared i args) (s.started i args) := ⟨.main, rfl, rfl⟩
  have hnext : Step a (s.started i args) { s.started i args with main := .loop (i + 1) } :=
    ⟨.main, rfl, rfl⟩
  exact .head hpick (.head hprepare (.head hindex (.head hstart (.single hnext))))

/-- The run that was started is the only one to be served. -/
theorem Quiet.serving (h : Quiet s) (i : ℕ) (args : RunArgs) :
    Serving { s.started i args with main := .loop (i + 1) } s.runs.length
      ⟨args, firstJob, s.subBatch, none, .requests⟩ where
  run := List.getElem?_concat_length
  others k' r' hne hk' := by
    have hlt : k' < s.runs.length := by
      have hlt := (List.getElem?_eq_some_iff.mp hk').1
      rw [started, List.length_append, List.length_singleton] at hlt
      omega
    rw [started, List.getElem?_append_left hlt] at hk'
    exact h.runs r' (List.mem_of_getElem? hk')
  jobs j hj := by
    rcases eq_or_ne j firstJob with rfl | hne
    · exact ⟨rfl, rfl⟩
    · simp [started, prepared, picked, Batch.setJob, hne, h.jobs] at hj

/-- A turn of the loop, and the run that it starts. -/
theorem Quiet.turn [Inhabited ω] (h : Quiet s) {args : RunArgs} (hmain : s.main = .loop i)
    (hi : i < s.batchCount) (hargs : a.runArgs s.startIndex i = some args) :
    ∃ t, Relation.ReflTransGen (Step a) s t ∧ Quiet t ∧
      t.place = (.loop (i + 1), s.todo, s.startIndex, s.batchCount, s.subBatch, s.isCompleted) := by
  obtain ⟨t, hrun, hquiet, hplace⟩ := (h.serving i args).drain (a := a) 9 le_rfl (by simp)
  have hstarted := run_started hmain hi hargs (h.jobs firstJob)
  exact ⟨t, hstarted.trans hrun, hquiet, hplace.trans (place_started s i args)⟩

theorem Counted.of_run (h : Counted total s) (hfits : a.Fits total)
    (hrun : Relation.ReflTransGen (Step a) s t) : Counted total t :=
  Run.invariant (fun _ _ hstep hs => hs.of_step hfits hstep) hrun h

/-- When the callbacks of the call have counted, the counter has the value of what was started. -/
theorem Counted.all (h : Counted total s) (hin : s.main.inside = true)
    (hall : ∀ r ∈ s.runs, r.subBatch = s.subBatch → r.callback.counted = true) :
    s.completeCount = s.main.begun s.batchCount := by
  rw [h.completeCount hin, ← h.begun hin]
  refine List.countP_congr fun r hr => ?_
  have hcounted := hall r hr
  simp only [Bool.and_eq_true, decide_eq_true_eq, and_iff_right_iff_imp]
  exact hcounted

/-- The loop is left for the wait. -/
theorem run_predicate (hmain : s.main = .loop s.batchCount) :
    Relation.ReflTransGen (Step a) s { s with isCompleted := true, main := .predicate } := by
  have hset : Step a s { s with main := .setCompleted } :=
    ⟨.main, rfl, by simp [Batch.exec, Batch.mainStep, hmain]⟩
  have hwait : Step a { s with main := .setCompleted }
      { s with isCompleted := true, main := .predicate } := ⟨.main, rfl, rfl⟩
  exact .head hset (.single hwait)

/-- The wait is over. -/
theorem step_leave (hmain : s.main = .predicate) (hcount : s.completeCount = s.batchCount) :
    Step a s { s with main := .next } :=
  ⟨.main, rfl, by simp [Batch.exec, Batch.mainStep, hmain, hcount]⟩

/-- When every run of the call is over, the wait is. -/
theorem Quiet.leave (h : Quiet s) (hc : Counted total s) (hmain : s.main = .loop s.batchCount) :
    ∃ t, Relation.ReflTransGen (Step a) s t ∧ Quiet t ∧ t.main = .next ∧ t.todo = s.todo := by
  have hcount : s.completeCount = s.batchCount := by
    have hall := hc.all (by rw [hmain]; rfl)
      fun r hr _ => Callback.counted_of_released (h.runs r hr)
    rwa [hmain] at hall
  exact ⟨_, (run_predicate hmain).tail (step_leave rfl hcount), ⟨h.runs, h.jobs⟩, rfl, rfl⟩

/-- So many turns of the loop, each with its run. -/
theorem Quiet.turns [Inhabited ω] (hfits : a.Fits total) (n : ℕ) : ∀ {s : Batch ω} {i : ℕ},
    Quiet s → Counted total s → s.main = .loop i → i + n ≤ s.batchCount →
    ∃ t, Relation.ReflTransGen (Step a) s t ∧ Quiet t ∧
      t.place = (.loop (i + n), s.todo, s.startIndex, s.batchCount, s.subBatch, s.isCompleted) := by
  induction n with
  | zero =>
    intro s i h hc hmain _
    exact ⟨s, .refl, h, by rw [place, hmain]; rfl⟩
  | succ n ih =>
    intro s i h hc hmain hn
    have hlt : s.startIndex + i < total := by
      have hle := hc.covers.le
      omega
    obtain ⟨args, hargs⟩ := hfits.runArgs hlt
    obtain ⟨t, hrun, hquiet, hplace⟩ := h.turn hmain (by omega) hargs
    simp only [place, Prod.mk.injEq] at hplace
    obtain ⟨hmain', htodo, hstart, hcount, hcall, hcompleted⟩ := hplace
    obtain ⟨u, hrun', hquiet', hplace'⟩ := ih hquiet (hc.of_run hfits hrun) hmain' (by omega)
    rw [htodo, hstart, hcount, hcall, hcompleted, Nat.add_right_comm] at hplace'
    exact ⟨u, hrun.trans hrun', hquiet', hplace'⟩

/-- A call of `runSubBatch` can be brought to its end. -/
theorem Quiet.finish_call [Inhabited ω] (hfits : a.Fits total) (h : Quiet s) (hc : Counted total s)
    (hmain : s.main = .loop 0) :
    ∃ t, Relation.ReflTransGen (Step a) s t ∧ Quiet t ∧ t.main = .next ∧ t.todo = s.todo := by
  obtain ⟨t, hrun, hquiet, hplace⟩ := h.turns hfits s.batchCount hc hmain (by omega)
  simp only [place, Prod.mk.injEq] at hplace
  obtain ⟨hmain', htodo, -, hcount, -, -⟩ := hplace
  obtain ⟨u, hrun', hquiet', hnext, htodo'⟩ :=
    hquiet.leave (a := a) (hc.of_run hfits hrun) (by rw [hmain', hcount, Nat.zero_add])
  exact ⟨u, hrun.trans hrun', hquiet', hnext, htodo'.trans htodo⟩

/-- `Run` can be brought to its end. -/
theorem Quiet.finish [Inhabited ω] (hfits : a.Fits total) : ∀ {todo : List (ℕ × ℕ)} {s : Batch ω},
    Quiet s → Counted total s → s.main = .next → s.todo = todo →
    ∃ t, Relation.ReflTransGen (Step a) s t ∧ t.main = .returned := by
  intro todo
  induction todo with
  | nil =>
    intro s h hc hmain htodo
    exact ⟨{ s with main := .returned },
      .single ⟨.main, rfl, by simp [Batch.exec, Batch.mainStep, hmain, htodo]⟩, rfl⟩
  | cons call todo ih =>
    intro s h hc hmain htodo
    have hcall : Step a s (s.call call.1 call.2 todo) :=
      ⟨.main, rfl, by simp [Batch.exec, Batch.mainStep, hmain, htodo]⟩
    have hquiet : Quiet (s.call call.1 call.2 todo) := ⟨h.runs, h.jobs⟩
    obtain ⟨t, hrun, hquiet', hmain', htodo'⟩ :=
      hquiet.finish_call hfits (hc.of_step hfits hcall) rfl
    have hrun := Relation.ReflTransGen.head hcall hrun
    obtain ⟨u, hrun', hreturned⟩ := ih hquiet' (hc.of_run hfits hrun) hmain' htodo'
    exact ⟨u, hrun.trans hrun', hreturned⟩

/-- A size as an `int` that is not negative is the size if it fits, and less if it does not. -/
theorem toNat_toInt32 {x : ℕ} (h : 0 ≤ MemFDService.toInt32 x) :
    (MemFDService.toInt32 x).toNat ≤ x ∧ ((MemFDService.toInt32 x).toNat = x ↔ x < 2 ^ 31) := by
  rcases Nat.lt_or_ge x (2 ^ 31) with hlt | hge
  · rw [MemFDService.toInt32_of_lt hlt]
    simp only [Int.toNat_natCast, le_refl, true_and, hlt]
  · have hbound : MemFDService.toInt32 x < 2 ^ 31 := by
      have hmod := @Int.bmod_lt x (2 ^ 32) (by decide)
      unfold MemFDService.toInt32
      omega
    omega

/-- A batch that is accepted has a run, and its vectors are long enough. -/
theorem fits_of_interpret (h : a.interpret = .ok (.batch total)) : 1 ≤ total ∧ a.Fits total := by
  simp only [BatchArgs.interpret] at h
  split_ifs at h with hzero hm huser hout hneg
  · cases h
  obtain rfl := Interpretation.batch.inj (Except.ok.inj h)
  have hnonneg := not_lt.mp hneg
  refine ⟨by omega, (toNat_toInt32 hnonneg).1, ?_, ?_⟩
  · rw [not_not.mp hout] at hnonneg ⊢
    exact (toNat_toInt32 hnonneg).1
  · rcases not_and_or.mp huser with hempty | hsame
    · exact .inl (not_not.mp hempty)
    · rw [not_not.mp hsame] at hnonneg ⊢
      exact .inr (toNat_toInt32 hnonneg).1

/-- A run that was started for its index has the user argument of that index. -/
theorem IndexCorrect.userArgs (hcorrect : s.IndexCorrect a) (h : Ordered a total s)
    (hfits : a.Fits total) (hlength : s.runs.length = total) :
    ∀ k < total, a.userArgs[k]? = a.userArgs[k % SUB_BATCH_MAX_COUNT]? := by
  intro k hk
  obtain ⟨r, hr⟩ : ∃ r, s.runs[k]? = some r := ⟨_, List.getElem?_eq_getElem (hlength ▸ hk)⟩
  have hargs := (h.runs k r hr).args
  have hmem := hcorrect.started.mem_iff.mp (List.mem_map_of_mem (List.mem_of_getElem? hr))
  obtain ⟨k', -, hwanted⟩ := List.mem_map.mp hmem
  have hindex : k' = k := (BatchArgs.batchIndex_wanted hwanted).symm.trans
    (BatchArgs.batchIndex_started hargs)
  refine (BatchArgs.started_eq_wanted_iff hfits hk).mp ?_
  rw [hargs, ← hindex, hwanted]

end Batch
end DxRt.Inference
