import DxRt.Inference.BatchIndex

/-! lib/inference_engine.cpp: the wait of `runSubBatch`.

    The counter, the flag and the condition variable are locals of the call. A callback still reads
    the counter and the flag, and notifies, after it has counted; the call may have returned by then.
    And it notifies without the lock of the condition variable: between the predicate and falling
    asleep the notification is lost. -/

namespace DxRt.Inference
variable {ω : Type*}

/-- The callback has counted and may still notify. -/
def Callback.notifying : Callback ω → Bool
  | .loadCount | .loadCompleted | .notify => true
  | _ => false

/-- The next step of the callback refers to the locals of its call. -/
def Callback.touches : Callback ω → Bool
  | .count | .loadCount | .loadCompleted | .notify => true
  | _ => false

/-- No notification of the callback is to come. -/
def Callback.done : Callback ω → Bool
  | .finished | .over => true
  | _ => false

theorem Callback.counted_of_done {c : Callback ω} (h : c.done = true) : c.counted = true := by
  cases c <;> simp_all [Callback.done, Callback.counted]

namespace Batch
variable {a : BatchArgs} {s t : Batch ω} {total k : ℕ} {r r' : BatchRun ω}

/-- `runSubBatch` is asleep, and no callback of the call will wake it up. -/
def Hung (s : Batch ω) : Prop :=
  s.main = .asleep ∧ ∀ r ∈ s.runs, r.subBatch = s.subBatch → r.callback.done = true

/-- A callback is about to refer to locals that are gone. -/
def Dangling (s : Batch ω) (r : BatchRun ω) : Prop :=
  r ∈ s.runs ∧ r.callback.touches = true ∧ s.live r.subBatch = false

/-- A step that does not notify between the predicate and falling asleep. -/
def LockedStep (a : BatchArgs) (s t : Batch ω) : Prop :=
  ∃ b : BatchActor ω, b.failing = false ∧ s.exec a b = some t ∧
    ∀ (k : ℕ) (hits : Bool) (r : BatchRun ω), b = .callback k hits → s.runs[k]? = some r →
      r.callback = .notify → s.main ≠ .block

theorem LockedStep.step (h : LockedStep a s t) : Step a s t := by
  obtain ⟨b, hb, hexec, -⟩ := h
  exact ⟨b, hb, hexec⟩

/-! ### The notification is still to come -/

/-- A callback of the call has counted and may still notify. -/
def Notifying (s : Batch ω) : Prop :=
  ∃ r ∈ s.runs, r.subBatch = s.subBatch ∧ r.callback.notifying = true

/-- When the thread is about to fall asleep or has done so after the last callback has counted, a
    notification is to come. -/
def Awaited (s : Batch ω) : Prop :=
  s.main = .block ∨ s.main = .asleep → s.completeCount = s.batchCount → s.Notifying

theorem Awaited.of_awake (hblock : s.main ≠ .block) (hasleep : s.main ≠ .asleep) : s.Awaited := by
  rintro (hmain | hmain)
  · exact absurd hmain hblock
  · exact absurd hmain hasleep

/-- A run that does not notify goes on. -/
theorem Notifying.setRun (h : s.Notifying) (hk : s.runs[k]? = some r)
    (hother : r.subBatch = s.subBatch → r.callback.notifying = true →
      r'.subBatch = s.subBatch ∧ r'.callback.notifying = true) : (s.setRun k r').Notifying := by
  obtain ⟨r₀, hr₀, hcall, hnotifying⟩ := h
  obtain ⟨k₀, hk₀⟩ := List.mem_iff_getElem?.mp hr₀
  rcases eq_or_ne k k₀ with rfl | hne
  · rw [hk, Option.some.injEq] at hk₀
    subst hk₀
    refine ⟨r', ?_, hother hcall hnotifying⟩
    exact List.mem_of_getElem? (List.getElem?_set_self (List.getElem?_eq_some_iff.mp hk).1)
  · refine ⟨r₀, ?_, hcall, hnotifying⟩
    exact List.mem_of_getElem? ((List.getElem?_set_ne hne).trans hk₀)

/-- A run of the call comes to where it may notify. -/
theorem Notifying.of_setRun (hk : s.runs[k]? = some r) (hcall : r'.subBatch = s.subBatch)
    (hnotifying : r'.callback.notifying = true) : (s.setRun k r').Notifying :=
  ⟨r', List.mem_of_getElem? (List.getElem?_set_self (List.getElem?_eq_some_iff.mp hk).1), hcall,
    hnotifying⟩

theorem Awaited.setRun (h : s.Awaited) (hk : s.runs[k]? = some r)
    (hother : r.subBatch = s.subBatch → r.callback.notifying = true →
      r'.subBatch = s.subBatch ∧ r'.callback.notifying = true) : (s.setRun k r').Awaited :=
  fun hmain hcount => (h hmain hcount).setRun hk hother

theorem inside_of_block (hmain : s.main = .block ∨ s.main = .asleep) : s.main.inside = true := by
  rcases hmain with hmain | hmain <;> rw [hmain] <;> rfl

theorem Awaited.mainStep (h : s.Awaited) (hstep : s.mainStep a = some t) : t.Awaited := by
  cases hmain : s.main <;>
    simp only [Batch.mainStep, hmain, reduceCtorEq, Option.some.injEq] at hstep
  case next =>
    split at hstep
    all_goals
      obtain rfl := Option.some.inj hstep
      exact Awaited.of_awake (by simp [Batch.call]) (by simp [Batch.call])
  case loop i =>
    split_ifs at hstep
    · split at hstep
      all_goals
        obtain rfl := Option.some.inj hstep
        exact Awaited.of_awake (by simp) (by simp)
    · obtain rfl := Option.some.inj hstep
      exact Awaited.of_awake (by simp) (by simp)
  case predicate =>
    subst hstep
    intro hnext hcount
    simp only at hnext hcount
    simp [hcount] at hnext
  case block =>
    subst hstep
    exact fun _ => h (.inl hmain)
  all_goals
    subst hstep
    exact Awaited.of_awake (by simp) (by simp)

theorem Awaited.callbackStep {hits : Bool} {callback : Callback ω} (h : s.Awaited)
    (hc : Counted total s) (hk : s.runs[k]? = some r)
    (hlocked : r.callback = .notify → s.main ≠ .block)
    (hstep : s.callbackStep r hits = some (callback, t)) :
    (t.setRun k { r with callback := callback }).Awaited := by
  have hlive : s.main = .block ∨ s.main = .asleep → r.subBatch = s.subBatch →
      s.live r.subBatch = true := fun hmain hcall => live_iff.mpr ⟨hcall, inside_of_block hmain⟩
  cases hcallback : r.callback <;>
    simp only [Batch.callbackStep, hcallback, reduceCtorEq, Option.some.injEq, Prod.mk.injEq]
      at hstep
  all_goals obtain ⟨rfl, rfl⟩ := hstep
  case userCallback => exact h.setRun hk (by simp [hcallback, Callback.notifying])
  case getBatchIndex => exact h.setRun hk (by simp [hcallback, Callback.notifying])
  case store =>
    refine Awaited.setRun (r := r) ?_ ?_ (by simp [hcallback, Callback.notifying])
    · split_ifs <;> exact h
    · split_ifs <;> exact hk
  case count =>
    intro hmain hcount
    have hcall : r.subBatch = s.subBatch := by
      by_contra hgone
      have hlive : s.live r.subBatch = false := by simp [live, hgone]
      have hcounted := hc.gone r (List.mem_of_getElem? hk) hlive
      simp [hcallback, Callback.counted] at hcounted
    refine Notifying.of_setRun (r := r) ?_ ?_ rfl
    · split_ifs <;> exact hk
    · split_ifs <;> exact hcall
  case loadCount =>
    intro hmain hcount
    refine (h hmain hcount).setRun hk fun hcall _ => ⟨hcall, ?_⟩
    simp only [Batch.setRun] at hcount
    simp [hlive hmain hcall, hcount, Callback.notifying]
  case loadCompleted =>
    intro hmain hcount
    refine (h hmain hcount).setRun hk fun hcall _ => ⟨hcall, ?_⟩
    have hcompleted : s.isCompleted = true := hc.isCompleted (by
      rcases hmain with hmain | hmain
      · rw [show s.main = .block from hmain]; rfl
      · rw [show s.main = .asleep from hmain]; rfl)
    simp [hlive hmain hcall, hcompleted, Callback.notifying]
  case notify =>
    have hblock := hlocked hcallback
    by_cases hasleep : s.main = .asleep
    · split_ifs with hwakes
      · refine Awaited.of_awake ?_ ?_ <;> simp [Batch.setRun, Batch.notifyOne, hasleep]
      · refine h.setRun hk fun hcall _ => absurd (hlive (.inr hasleep) hcall) ?_
        simp only [Bool.or_eq_true, not_or] at hwakes
        exact hwakes.1
    · rw [notifyOne_of_awake hasleep, ite_self]
      exact Awaited.of_awake hblock hasleep
  case finished =>
    refine Awaited.setRun (r := r) ?_ hk (by simp [hcallback, Callback.notifying])
    exact h

theorem Awaited.exec {b : BatchActor ω} (h : s.Awaited) (hc : Counted total s)
    (hexec : s.exec a b = some t)
    (hlocked : ∀ (k : ℕ) (hits : Bool) (r : BatchRun ω), b = .callback k hits →
      s.runs[k]? = some r → r.callback = .notify → s.main ≠ .block) : t.Awaited := by
  cases b <;> simp only [Batch.exec] at hexec
  case main => exact h.mainStep hexec
  case pick j =>
    split at hexec
    case h_1 =>
      split_ifs at hexec
      obtain rfl := Option.some.inj hexec
      exact Awaited.of_awake (by simp) (by simp)
    case h_2 => cases hexec
  case throws =>
    split at hexec <;> simp only [Option.some.injEq, reduceCtorEq] at hexec
    all_goals
      subst hexec
      exact Awaited.of_awake (by simp) (by simp)
  case wakeUp =>
    split_ifs at hexec
    obtain rfl := Option.some.inj hexec
    exact Awaited.of_awake (by simp) (by simp)
  case complete k outputs =>
    split at hexec
    case h_1 r hk =>
      split at hexec
      case h_1 hcallback =>
        obtain rfl := Option.some.inj hexec
        exact h.setRun hk (by simp [hcallback, Callback.notifying])
      case h_2 => cases hexec
    case h_2 => cases hexec
  case userThrows k =>
    split at hexec
    case h_1 r hk =>
      split at hexec
      case h_1 hcallback =>
        obtain rfl := Option.some.inj hexec
        exact h.setRun hk (by simp [hcallback, Callback.notifying])
      case h_2 => cases hexec
    case h_2 => cases hexec
  case callback k hits =>
    split at hexec
    case h_1 r hk =>
      obtain ⟨⟨callback, s'⟩, hstep, rfl⟩ := Option.map_eq_some_iff.mp hexec
      exact h.callbackStep hc hk (hlocked k hits r rfl hk) hstep
    case h_2 => cases hexec
  case foreign j useFlag batchIndex =>
    split_ifs at hexec
    obtain rfl := Option.some.inj hexec
    exact h

theorem Awaited.init {pool : JobId → Bool × ℤ} (h : a.interpret = .ok (.batch total)) :
    (Batch.init a pool : Batch ω).Awaited := by
  rw [Batch.init, h]
  exact Awaited.of_awake (by simp [checked, idle]) (by simp [checked, idle])

/-- The thread does not sleep for ever. -/
theorem Awaited.not_hung (h : s.Awaited) (hc : Counted total s) : ¬ s.Hung := by
  rintro ⟨hmain, hdone⟩
  have hin : s.main.inside = true := by rw [hmain]; rfl
  rcases eq_or_ne s.completeCount s.batchCount with hcount | hcount
  · obtain ⟨r, hr, hcall, hnotifying⟩ := h (.inr hmain) hcount
    have hdone := hdone r hr hcall
    cases hcallback : r.callback <;>
      simp [hcallback, Callback.notifying, Callback.done] at hnotifying hdone
  · have hall := hc.all hin fun r hr hcall => Callback.counted_of_done (hdone r hr hcall)
    rw [hmain] at hall
    exact hcount hall

/-! ### The last callback -/

/-- The callbacks of the other runs are over, the counter is full, and the flag is set. -/
structure Last (s : Batch ω) (k : ℕ) (r : BatchRun ω) : Prop where
  run : s.runs[k]? = some r
  call : r.subBatch = s.subBatch
  others : ∀ (k' : ℕ) (r' : BatchRun ω), k' ≠ k → s.runs[k']? = some r' →
    r'.callback.released = true
  full : s.completeCount = s.batchCount
  isCompleted : s.isCompleted = true

theorem Last.setRun (h : Last s k r) (callback : Callback ω) :
    Last (s.setRun k { r with callback := callback }) k { r with callback := callback } where
  run := List.getElem?_set_self (List.getElem?_eq_some_iff.mp h.run).1
  call := h.call
  others k' r' hne hk' := h.others k' r' hne
    (by rwa [Batch.setRun, List.getElem?_set_ne hne.symm] at hk')
  full := h.full
  isCompleted := h.isCompleted

theorem Last.loadCount (h : Last s k r) (hin : s.main.inside = true)
    (hcallback : r.callback = .loadCount) :
    Step a s (s.setRun k { r with callback := .loadCompleted }) := by
  have hlive : s.live r.subBatch = true := live_iff.mpr ⟨h.call, hin⟩
  exact ⟨.callback k false, rfl,
    by simp [Batch.exec, h.run, Batch.callbackStep, hcallback, hlive, h.full]⟩

theorem Last.loadCompleted (h : Last s k r) (hin : s.main.inside = true)
    (hcallback : r.callback = .loadCompleted) :
    Step a s (s.setRun k { r with callback := .notify }) := by
  have hlive : s.live r.subBatch = true := live_iff.mpr ⟨h.call, hin⟩
  exact ⟨.callback k false, rfl,
    by simp [Batch.exec, h.run, Batch.callbackStep, hcallback, hlive, h.isCompleted]⟩

/-- The notification finds nobody asleep. -/
theorem Last.notify (h : Last s k r) (hawake : s.main ≠ .asleep)
    (hcallback : r.callback = .notify) :
    Step a s (s.setRun k { r with callback := .finished }) :=
  ⟨.callback k false, rfl,
    by simp [Batch.exec, h.run, Batch.callbackStep, hcallback, notifyOne_of_awake hawake]⟩

/-- The call returns before the last callback is done. -/
theorem Last.dangling (h : Last s k r) (hmain : s.main = .predicate)
    (htouches : r.callback.touches = true) :
    ∃ t, Step a s t ∧ t.Dangling r :=
  ⟨{ s with main := .next }, step_leave hmain h.full, List.mem_of_getElem? h.run, htouches,
    by simp [live, Main.inside]⟩

/-! ### How it gets there -/

/-- The run that is being served can be brought to where it counts. -/
theorem Serving.to_count [Inhabited ω] (n : ℕ) : ∀ {s : Batch ω} {r : BatchRun ω}, Serving s k r →
    r.callback.rank = n + 5 → s.main ≠ .asleep →
    ∃ t r', Relation.ReflTransGen (Step a) s t ∧ Serving t k r' ∧ t.place = s.place ∧
      r'.subBatch = r.subBatch ∧ r'.callback = .count := by
  induction n with
  | zero =>
    intro s r h hrank hawake
    refine ⟨s, r, .refl, h, rfl, rfl, ?_⟩
    cases hcallback : r.callback <;> simp [hcallback, Callback.rank] at hrank
    rfl
  | succ n ih =>
    intro s r h hrank hawake
    obtain ⟨t, r', hstep, hserving, hplace, hcall, hlower, hnear⟩ :=
      h.next (a := a) (by omega) hawake
    have hmain : t.main = s.main := congrArg Prod.fst hplace
    obtain ⟨u, r'', hrun, hserving', hplace', hcall', hcount⟩ :=
      ih hserving (by omega) (by rwa [hmain])
    exact ⟨u, r'', .head hstep hrun, hserving', hplace'.trans hplace, hcall'.trans hcall, hcount⟩

theorem subBatches_head (hpos : 1 ≤ total) :
    ∃ batchCount todo, subBatches total = (0, batchCount) :: todo ∧ 1 ≤ batchCount := by
  rw [subBatches]
  rcases hloops : total / SUB_BATCH_MAX_COUNT with _ | loops
  · have hremain : total % SUB_BATCH_MAX_COUNT = total := by
      have hdiv := Nat.div_add_mod total SUB_BATCH_MAX_COUNT
      rwa [hloops, Nat.mul_zero, Nat.zero_add] at hdiv
    refine ⟨total, [], ?_, hpos⟩
    simp [subBatchLoop, hremain, Nat.pos_of_ne_zero (Nat.one_le_iff_ne_zero.mp hpos)]
  · exact ⟨SUB_BATCH_MAX_COUNT, _, rfl, by decide⟩

/-- The flag is set, and the last callback of the call is about to count. -/
structure Ready (s : Batch ω) (k : ℕ) (r : BatchRun ω) : Prop where
  serving : Serving s k r
  call : r.subBatch = s.subBatch
  callback : r.callback = .count
  isCompleted : s.isCompleted = true

/-- The last callback counts. -/
theorem Ready.count (h : Ready s k r) (hc : Counted total s) (hfits : a.Fits total)
    (hmain : s.main.inside = true) (hbegun : s.main.begun s.batchCount = s.batchCount) :
    ∃ t, Step a s t ∧ Last t k { r with callback := .loadCount } ∧ t.main = s.main ∧
      t.completeCount = s.completeCount + 1 ∧ t.batchCount = s.batchCount := by
  have hlive : s.live r.subBatch = true := live_iff.mpr ⟨h.call, hmain⟩
  have hcount : Step a s ({ s with completeCount := s.completeCount + 1 }.setRun k
      { r with callback := .loadCount }) :=
    ⟨.callback k false, rfl,
      by simp [Batch.exec, h.serving.run, Batch.callbackStep, h.callback, hlive]⟩
  have hlt := (List.getElem?_eq_some_iff.mp h.serving.run).1
  have hothers : ∀ (k' : ℕ) (r' : BatchRun ω), k' ≠ k →
      (s.runs.set k { r with callback := .loadCount })[k']? = some r' →
      r'.callback.released = true := fun k' r' hne hk' =>
    h.serving.others k' r' hne (by rwa [List.getElem?_set_ne hne.symm] at hk')
  refine ⟨_, hcount, ⟨List.getElem?_set_self hlt, h.call, hothers, ?_, h.isCompleted⟩,
    rfl, rfl, rfl⟩
  refine ((hc.of_step hfits hcount).all hmain fun r' hr' _ => ?_).trans hbegun
  obtain ⟨k', hk'⟩ := List.mem_iff_getElem?.mp hr'
  rcases eq_or_ne k' k with rfl | hne
  · rw [Batch.setRun, List.getElem?_set_self hlt, Option.some.injEq] at hk'
    exact hk' ▸ rfl
  · exact Callback.counted_of_released (hothers k' r' hne hk')

/-- A call of `runSubBatch` can come to where only the last callback has still to count. -/
theorem Quiet.ready [Inhabited ω] (hfits : a.Fits total) (h : Quiet s) (hc : Counted total s)
    (hmain : s.main = .loop 0) (hpos : 1 ≤ s.batchCount) :
    ∃ t k r, Relation.ReflTransGen (Step a) s t ∧ Ready t k r ∧ t.main = .predicate := by
  obtain ⟨n, hn⟩ : ∃ n, s.batchCount = n + 1 := ⟨s.batchCount - 1, by omega⟩
  obtain ⟨t, hturns, hquiet, hplace⟩ := h.turns hfits n hc hmain (by omega)
  simp only [place, Prod.mk.injEq, Nat.zero_add] at hplace
  obtain ⟨hloop, -, -, hcount, -, -⟩ := hplace
  have hct := hc.of_run hfits hturns
  have hlt : t.startIndex + n < total := by
    have hle := hct.covers.le
    omega
  obtain ⟨args, hargs⟩ := hfits.runArgs hlt
  have hstarted := run_started (a := a) hloop (by omega) hargs (hquiet.jobs _)
  have hpredicate := run_predicate (a := a)
    (s := { t.started n args with main := .loop (n + 1) })
    (congrArg Main.loop (hcount.trans hn).symm)
  have hserving : Serving { t.started n args with isCompleted := true, main := .predicate }
      t.runs.length ⟨args, firstJob, t.subBatch, none, .requests⟩ :=
    ⟨(hquiet.serving n args).run, (hquiet.serving n args).others, (hquiet.serving n args).jobs⟩
  obtain ⟨u, r, hdrive, hready, hplace, hcall, hcallback⟩ :=
    hserving.to_count (a := a) 4 rfl (by simp)
  simp only [place, Prod.mk.injEq] at hplace
  obtain ⟨hmain', -, -, -, hsub, hcompleted⟩ := hplace
  exact ⟨u, t.runs.length, r, hturns.trans (hstarted.trans (hpredicate.trans hdrive)),
    ⟨hready, hcall.trans hsub.symm, hcallback, hcompleted⟩, hmain'⟩

theorem exists_ready [Inhabited ω] (h : a.interpret = .ok (.batch total)) (hpos : 1 ≤ total)
    (hfits : a.Fits total) : ∃ (t : Batch ω) (k : ℕ) (r : BatchRun ω),
      Relation.ReflTransGen (Step a) (Batch.init a fun _ => (false, -1)) t ∧ Ready t k r ∧
        t.main = .predicate := by
  obtain ⟨batchCount, todo, htodo, hbatch⟩ := subBatches_head hpos
  have hinit : (Batch.init a fun _ => (false, -1) : Batch ω) =
      checked (fun _ => (false, -1)) (.ok (.batch total)) := by rw [Batch.init, h]
  have hc : Counted total (Batch.init a fun _ => (false, -1) : Batch ω) := Counted.init h
  rw [hinit] at hc ⊢
  have hcall : Step a (checked (fun _ => (false, -1)) (.ok (.batch total)) : Batch ω)
      ((checked (fun _ => (false, -1)) (.ok (.batch total))).call 0 batchCount todo) :=
    ⟨.main, rfl, by simp [Batch.exec, Batch.mainStep, checked, idle, htodo]⟩
  have hquiet : Quiet ((checked (fun _ => (false, -1)) (.ok (.batch total)) : Batch ω).call 0
      batchCount todo) := ⟨List.forall_mem_nil _, fun _ => rfl⟩
  obtain ⟨t, k, r, hrun, hready⟩ := hquiet.ready hfits (hc.of_step hfits hcall) rfl hbatch
  exact ⟨t, k, r, .head hcall hrun, hready⟩

/-! ### Use after return, and the lost notification -/

/-- The last callback can be at any of its steps after the count when the call returns. -/
theorem exists_last [Inhabited ω] (h : a.interpret = .ok (.batch total)) (hpos : 1 ≤ total)
    (hfits : a.Fits total) {callback : Callback ω} (hnotifying : callback.notifying = true) :
    ∃ (t : Batch ω) (k : ℕ) (r : BatchRun ω),
      Relation.ReflTransGen (Step a) (Batch.init a fun _ => (false, -1)) t ∧ Last t k r ∧
        t.main = .predicate ∧ r.callback = callback := by
  obtain ⟨s, k, r, hrun, hready, hmain⟩ := exists_ready (ω := ω) h hpos hfits
  have hc := (Counted.init h).of_run hfits hrun
  obtain ⟨t, hcount, hlast, hmain', -, -⟩ :=
    hready.count hc hfits (by rw [hmain]; rfl) (by rw [hmain]; rfl)
  rw [hmain] at hmain'
  have hin : t.main.inside = true := by rw [hmain']; rfl
  have hloaded := hlast.loadCount (a := a) hin rfl
  have hnotify := (hlast.setRun .loadCompleted).loadCompleted (a := a) hin rfl
  cases callback <;> simp only [Callback.notifying, Bool.false_eq_true] at hnotifying
  case loadCount => exact ⟨t, k, _, hrun.tail hcount, hlast, hmain', rfl⟩
  case loadCompleted =>
    exact ⟨_, k, _, (hrun.tail hcount).tail hloaded, hlast.setRun .loadCompleted, hmain', rfl⟩
  case notify =>
    exact ⟨_, k, _, ((hrun.tail hcount).tail hloaded).tail hnotify,
      (hlast.setRun .loadCompleted).setRun .notify, hmain', rfl⟩

/-- In a batch in which nothing fails a callback can reach for locals that are gone exactly in its
    steps after the count: at the load of the counter, at the load of the flag, and when it
    notifies. -/
theorem dangling_iff [Inhabited ω] (h : a.interpret = .ok (.batch total)) (hpos : 1 ≤ total)
    (hfits : a.Fits total) (callback : Callback ω) :
    (∃ (pool : JobId → Bool × ℤ) (s : Batch ω) (r : BatchRun ω),
      Relation.ReflTransGen (Step a) (Batch.init a pool) s ∧ r.callback = callback ∧ s.Dangling r) ↔
      callback.notifying = true := by
  constructor
  · rintro ⟨pool, s, r, hrun, rfl, hr, htouches, hgone⟩
    have hcounted := ((Counted.init h).of_run hfits hrun).gone r hr hgone
    cases hcallback : r.callback <;>
      simp_all [Callback.touches, Callback.counted, Callback.notifying]
  · intro hnotifying
    obtain ⟨t, k, r, hrun, hlast, hmain, rfl⟩ := exists_last h hpos hfits hnotifying
    have htouches : r.callback.touches = true := by
      cases hcallback : r.callback <;> simp_all [Callback.touches, Callback.notifying]
    obtain ⟨u, hleave, hdangling⟩ := hlast.dangling (a := a) hmain htouches
    exact ⟨_, u, r, hrun.tail hleave, rfl, hdangling⟩

/-- A batch of one. -/
def oneRun : BatchArgs := ⟨false, 1, [1], [1], []⟩

theorem oneRun_fits : oneRun.Fits 1 := ⟨le_rfl, le_rfl, .inl rfl⟩

theorem dangling_one_run : ∃ (pool : JobId → Bool × ℤ) (s : Batch ℕ) (r : BatchRun ℕ),
    Relation.ReflTransGen (Step oneRun) (Batch.init oneRun pool) s ∧ r.callback = .notify ∧
      s.Dangling r :=
  (dangling_iff (by decide +kernel) le_rfl oneRun_fits .notify).mpr rfl

theorem step_asleep (hmain : s.main = .block) : Step a s { s with main := .asleep } :=
  ⟨.main, rfl, by simp [Batch.exec, Batch.mainStep, hmain]⟩

/-- A notification between the predicate and falling asleep is lost. -/
theorem exists_hung [Inhabited ω] (h : a.interpret = .ok (.batch total)) (hpos : 1 ≤ total)
    (hfits : a.Fits total) : ∃ t : Batch ω,
      Relation.ReflTransGen (Step a) (Batch.init a fun _ => (false, -1)) t ∧ t.Hung := by
  obtain ⟨s, k, r, hrun, hready, hmain⟩ := exists_ready (ω := ω) h hpos hfits
  have hc := (Counted.init h).of_run hfits hrun
  obtain ⟨t, -, hlast, -, hnext, hsame⟩ :=
    hready.count hc hfits (by rw [hmain]; rfl) (by rw [hmain]; rfl)
  have hblock : Step a s { s with main := .block } := by
    have hne : s.completeCount ≠ s.batchCount := by
      have hfull := hlast.full
      omega
    exact ⟨.main, rfl, by simp [Batch.exec, Batch.mainStep, hmain, hne]⟩
  have hready' : Ready { s with main := .block } k r :=
    ⟨⟨hready.serving.run, hready.serving.others, hready.serving.jobs⟩, hready.call, hready.callback,
      hready.isCompleted⟩
  obtain ⟨t, hcount, hlast, hmain', -, -⟩ :=
    hready'.count (hc.of_step hfits hblock) hfits rfl rfl
  have hin : t.main.inside = true := by rw [hmain']; rfl
  have hloaded := hlast.loadCount (a := a) hin rfl
  have hnotify := (hlast.setRun .loadCompleted).loadCompleted (a := a) hin rfl
  have hlast := (hlast.setRun .loadCompleted).setRun .notify
  have hlost := hlast.notify (a := a) (by simp [Batch.setRun, hmain']) rfl
  have hlast := hlast.setRun .finished
  have hrun := ((((hrun.tail hblock).tail hcount).tail hloaded).tail hnotify).tail hlost
  refine ⟨_, hrun.tail (step_asleep hmain'), rfl, ?_⟩
  intro r' hr' _
  obtain ⟨k', hk'⟩ := List.mem_iff_getElem?.mp hr'
  rcases eq_or_ne k' k with rfl | hne
  · rw [hlast.run, Option.some.injEq] at hk'
    exact hk' ▸ rfl
  · have hover := hlast.others k' r' hne hk'
    cases hcallback : r'.callback <;> simp_all [Callback.released, Callback.done]

/-- In a batch in which nothing fails, `runSubBatch` sleeps for ever in no run in which nobody
    notifies between its predicate and its falling asleep, as with a notification under the lock.
    Otherwise it can, in every batch. -/
theorem hung_iff [Inhabited ω] (h : a.interpret = .ok (.batch total)) (hpos : 1 ≤ total)
    (hfits : a.Fits total) :
    (∀ (pool : JobId → Bool × ℤ) (s : Batch ω),
      Relation.ReflTransGen (LockedStep a) (Batch.init a pool) s → ¬ s.Hung) ∧
      ∃ (pool : JobId → Bool × ℤ) (s : Batch ω),
        Relation.ReflTransGen (Step a) (Batch.init a pool) s ∧ s.Hung := by
  constructor
  · intro pool s hrun
    have hinv : Counted total s ∧ s.Awaited := by
      induction hrun with
      | refl => exact ⟨Counted.init h, Awaited.init h⟩
      | tail _ hstep ih =>
        obtain ⟨hc, hawaited⟩ := ih
        obtain ⟨b, -, hexec, hlocked⟩ := id hstep
        exact ⟨hc.of_step hfits hstep.step, hawaited.exec hc hexec hlocked⟩
    exact hinv.2.not_hung hinv.1
  · obtain ⟨t, hrun, hhung⟩ := exists_hung (ω := ω) h hpos hfits
    exact ⟨_, t, hrun, hhung⟩

theorem hung_one_run : ∃ (pool : JobId → Bool × ℤ) (s : Batch ℕ),
    Relation.ReflTransGen (Step oneRun) (Batch.init oneRun pool) s ∧ s.Hung :=
  (hung_iff (by decide +kernel) le_rfl oneRun_fits).2

/-! ### A wait that is safe -/

/-- A call that has returned has left no callback behind. -/
def NoneLeft (s : Batch ω) : Prop :=
  ∀ r ∈ s.runs, s.live r.subBatch = false → r.callback.done = true

/-- No user callback throws, nobody notifies between the predicate and falling asleep, and the call
    is not left while a callback that has counted may still notify; `runAsync` throws only when the
    callbacks of the call are done. -/
structure Careful (s : Batch ω) (b : BatchActor ω) : Prop where
  user : ∀ k, b ≠ .userThrows k
  locked : ∀ (k : ℕ) (hits : Bool) (r : BatchRun ω), b = .callback k hits → s.runs[k]? = some r →
    r.callback = .notify → s.main ≠ .block
  leaves : b = .main → s.main = .predicate → s.completeCount = s.batchCount →
    ∀ r ∈ s.runs, r.subBatch = s.subBatch → r.callback.notifying = false
  throws : b = .throws → ∀ r ∈ s.runs, r.subBatch = s.subBatch → r.callback.done = true

def CarefulStep (a : BatchArgs) (s t : Batch ω) : Prop :=
  ∃ b : BatchActor ω, s.Careful b ∧ s.exec a b = some t

theorem NoneLeft.frame (h : s.NoneLeft) (hruns : t.runs = s.runs)
    (hlive : ∀ subBatch, s.live subBatch = true → t.live subBatch = true) : t.NoneLeft := by
  intro r hr hgone
  refine h r (hruns ▸ hr) (Bool.eq_false_iff.mpr fun hlive' => ?_)
  simp [hlive _ hlive'] at hgone

/-- The thread stays in the call. -/
theorem NoneLeft.inside (h : s.NoneLeft) (hruns : t.runs = s.runs) (hcall : t.subBatch = s.subBatch)
    (hin : t.main.inside = true) : t.NoneLeft :=
  h.frame hruns fun _ hlive => live_iff.mpr ⟨hcall ▸ (live_iff.mp hlive).1, hin⟩

/-- The thread leaves the call. -/
theorem NoneLeft.leave (h : s.NoneLeft)
    (hdone : ∀ r ∈ s.runs, r.subBatch = s.subBatch → r.callback.done = true) :
    NoneLeft { s with main := .next } := by
  intro r hr _
  cases hlive : s.live r.subBatch with
  | true => exact hdone r hr (live_iff.mp hlive).1
  | false => exact h r hr hlive

theorem NoneLeft.setRun (h : s.NoneLeft) (hk : s.runs[k]? = some r)
    (hcall : r'.subBatch = r.subBatch)
    (hdone : r.callback.done = true → r'.callback.done = true) : (s.setRun k r').NoneLeft := by
  intro r₀ hr₀ hgone
  rcases List.mem_or_eq_of_mem_set hr₀ with hr₀ | rfl
  · exact h r₀ hr₀ hgone
  · exact hdone (h r (List.mem_of_getElem? hk) (hcall ▸ hgone))

theorem NoneLeft.mainStep (h : s.NoneLeft) (hc : Counted total s) (hfits : a.Fits total)
    (hleaves : s.main = .predicate → s.completeCount = s.batchCount →
      ∀ r ∈ s.runs, r.subBatch = s.subBatch → r.callback.notifying = false)
    (hstep : s.mainStep a = some t) : t.NoneLeft := by
  cases hmain : s.main <;>
    simp only [Batch.mainStep, hmain, reduceCtorEq, Option.some.injEq] at hstep
  case next =>
    have hgone : ∀ subBatch, s.live subBatch = true → t.live subBatch = true := fun _ hlive => by
      simp [live, hmain, Main.inside] at hlive
    split at hstep
    all_goals
      obtain rfl := Option.some.inj hstep
      exact h.frame rfl hgone
  case loop i =>
    split_ifs at hstep with hi
    · have hle := hc.covers.le
      obtain ⟨args, hargs⟩ := hfits.runArgs (show s.startIndex + i < total by omega)
      simp only [hargs, Option.some.injEq] at hstep
      subst hstep
      exact h.inside rfl rfl rfl
    · obtain rfl := Option.some.inj hstep
      exact h.inside rfl rfl rfl
  case start i args j =>
    subst hstep
    intro r hr hgone
    rcases List.mem_append.mp hr with hr | hnew
    · refine h r hr ?_
      simpa [live, hmain, Main.inside] using hgone
    · obtain rfl := List.mem_singleton.mp hnew
      simp [live, Main.inside] at hgone
  case predicate =>
    subst hstep
    split_ifs with hcount
    · refine h.leave fun r hr hcall => ?_
      have hcounted := hc.all_counted (by rw [hmain]; rfl) (by rw [hmain]; exact hcount) hr hcall
      have hnotifying := hleaves hmain hcount r hr hcall
      cases hcallback : r.callback <;>
        simp_all [Callback.counted, Callback.notifying, Callback.done]
    · exact h.inside rfl rfl rfl
  all_goals
    subst hstep
    exact h.inside rfl rfl rfl

theorem NoneLeft.callbackStep {hits : Bool} {callback : Callback ω} (h : s.NoneLeft)
    (hk : s.runs[k]? = some r) (hstep : s.callbackStep r hits = some (callback, t)) :
    (t.setRun k { r with callback := callback }).NoneLeft := by
  have hnotify : s.notifyOne.NoneLeft := by
    unfold notifyOne
    split_ifs
    · exact h.inside rfl rfl rfl
    · exact h
  cases hcallback : r.callback <;>
    simp only [Batch.callbackStep, hcallback, reduceCtorEq, Option.some.injEq, Prod.mk.injEq]
      at hstep
  all_goals obtain ⟨rfl, rfl⟩ := hstep
  case store =>
    refine NoneLeft.setRun (r := r) ?_ ?_ rfl (by simp [hcallback, Callback.done])
    · split_ifs <;> exact h
    · split_ifs <;> exact hk
  case count =>
    refine NoneLeft.setRun (r := r) ?_ ?_ rfl (by simp [hcallback, Callback.done])
    · split_ifs <;> exact h
    · split_ifs <;> exact hk
  case notify =>
    refine NoneLeft.setRun (r := r) ?_ ?_ rfl (by simp [hcallback, Callback.done])
    · split_ifs
      · exact hnotify
      · exact h
    · split_ifs
      · simpa using hk
      · exact hk
  case finished => exact NoneLeft.setRun (r := r) h hk rfl fun _ => rfl
  all_goals exact h.setRun hk rfl (by simp [hcallback, Callback.done])

theorem NoneLeft.exec {b : BatchActor ω} (h : s.NoneLeft) (hc : Counted total s)
    (hfits : a.Fits total) (hb : s.Careful b) (hexec : s.exec a b = some t) : t.NoneLeft := by
  cases b <;> simp only [Batch.exec] at hexec
  case main => exact h.mainStep hc hfits (hb.leaves rfl) hexec
  case pick j =>
    split at hexec
    case h_1 i args hmain =>
      split_ifs at hexec
      obtain rfl := Option.some.inj hexec
      exact h.inside rfl rfl rfl
    case h_2 => cases hexec
  case throws =>
    split at hexec <;> simp only [Option.some.injEq, reduceCtorEq] at hexec
    all_goals
      subst hexec
      exact h.leave (hb.throws rfl)
  case wakeUp =>
    split_ifs at hexec
    obtain rfl := Option.some.inj hexec
    exact h.inside rfl rfl rfl
  case complete k outputs =>
    split at hexec
    case h_1 r hk =>
      split at hexec
      case h_1 hcallback =>
        obtain rfl := Option.some.inj hexec
        exact h.setRun hk rfl (by simp [hcallback, Callback.done])
      case h_2 => cases hexec
    case h_2 => cases hexec
  case userThrows k => exact absurd rfl (hb.user k)
  case callback k hits =>
    split at hexec
    case h_1 r hk =>
      obtain ⟨⟨callback, s'⟩, hstep, rfl⟩ := Option.map_eq_some_iff.mp hexec
      exact h.callbackStep hk hstep
    case h_2 => cases hexec
  case foreign j useFlag batchIndex =>
    split_ifs at hexec
    obtain rfl := Option.some.inj hexec
    exact h

theorem NoneLeft.init {pool : JobId → Bool × ℤ} (h : a.interpret = .ok (.batch total)) :
    (Batch.init a pool : Batch ω).NoneLeft := by
  rw [Batch.init, h]
  intro r hr
  simp [checked, idle] at hr

/-- What a careful run keeps. -/
theorem Careful.run (h : a.interpret = .ok (.batch total)) (hfits : a.Fits total)
    {pool : JobId → Bool × ℤ}
    (hrun : Relation.ReflTransGen (CarefulStep a) (Batch.init a pool) s) :
    Counted total s ∧ s.Awaited ∧ s.NoneLeft := by
  induction hrun with
  | refl => exact ⟨Counted.init h, Awaited.init h, NoneLeft.init h⟩
  | tail _ hstep ih =>
    obtain ⟨b, hb, hexec⟩ := hstep
    obtain ⟨hc, hawaited, hnone⟩ := ih
    refine ⟨hc.step hfits hexec hb.user fun hthrows r hr hlive => ?_,
      hawaited.exec hc hexec hb.locked, hnone.exec hc hfits hb hexec⟩
    exact Callback.counted_of_done (hb.throws hthrows r hr (live_iff.mp hlive).1)

/-- In a careful run, no call returns before its callbacks are done, and none sleeps for ever. In no
    batch this holds of every run, even if nothing fails: a call can return too early, and it can
    sleep for ever. -/
theorem wait_safe [Inhabited ω] (h : a.interpret = .ok (.batch total)) :
    (∀ (pool : JobId → Bool × ℤ) (s : Batch ω),
      Relation.ReflTransGen (CarefulStep a) (Batch.init a pool) s → s.NoneLeft ∧ ¬ s.Hung) ∧
      (¬ ∀ (pool : JobId → Bool × ℤ) (s : Batch ω),
        Relation.ReflTransGen (Step a) (Batch.init a pool) s → s.NoneLeft) ∧
      ¬ ∀ (pool : JobId → Bool × ℤ) (s : Batch ω),
        Relation.ReflTransGen (Step a) (Batch.init a pool) s → ¬ s.Hung := by
  obtain ⟨hpos, hfits⟩ := fits_of_interpret h
  refine ⟨fun pool s hrun => ?_, fun hall => ?_, fun hall => ?_⟩
  · obtain ⟨hc, hawaited, hnone⟩ := Careful.run h hfits hrun
    exact ⟨hnone, hawaited.not_hung hc⟩
  · obtain ⟨s, k, r, hrun, hlast, hmain, hcallback⟩ :=
      exists_last h hpos hfits (show (Callback.notify : Callback ω).notifying = true from rfl)
    obtain ⟨t, hleave, hr, -, hgone⟩ :=
      hlast.dangling (a := a) hmain (by rw [hcallback]; rfl)
    have hdone := hall _ t (hrun.tail hleave) r hr hgone
    simp [hcallback, Callback.done] at hdone
  · obtain ⟨t, hrun, hhung⟩ := exists_hung (ω := ω) h hpos hfits
    exact hall _ t hrun hhung

/-- Steps that are careful whatever else is going on: the callbacks wait while the thread is between
    the predicate and falling asleep, and the thread waits until no callback can notify. -/
def cautious (s : Batch ω) : BatchActor ω → Bool
  | .main => decide (s.main ≠ .predicate) || s.runs.all fun r => !r.callback.notifying
  | .callback .. => decide (s.main ≠ .block)
  | .pick _ | .complete .. => true
  | _ => false

theorem Careful.of_cautious {b : BatchActor ω} (h : s.cautious b = true) : s.Careful b where
  user := by
    rintro k rfl
    cases h
  locked := by
    rintro k hits r rfl - -
    simpa [cautious] using h
  leaves := by
    rintro rfl hmain - r hr -
    have hall : s.runs.all (fun r => !r.callback.notifying) = true := by
      simpa [cautious, hmain] using h
    simpa using List.all_eq_true.mp hall r hr
  throws := by
    rintro rfl
    cases h

/-- The run is over before the thread looks at the predicate. -/
def oneRunReturned : Option (Batch ℕ) :=
  Run.play (exec oneRun) cautious
    ([(.main, 2), (.pick firstJob, 1), (.main, 5), (.complete 0 7, 1), (.callback 0 false, 8),
      (.main, 2)].flatMap fun p => List.replicate p.2 p.1)
    (Batch.init oneRun fun _ => (false, -1))

theorem wait_safe_one_run : ∃ s ∈ oneRunReturned,
    (s.main = .returned ∧ s.result = [some 7]) ∧ s.NoneLeft ∧ ¬ s.Hung := by
  have hplay : oneRunReturned.map (fun s => (s.main, s.result)) = some (.returned, [some 7]) := by
    decide +kernel
  obtain ⟨s, hs, heq⟩ := Option.map_eq_some_iff.mp hplay
  have hrun : Relation.ReflTransGen (CarefulStep oneRun) (Batch.init oneRun fun _ => (false, -1)) s :=
    Run.play_run (fun _ _ b hb hexec => ⟨b, .of_cautious hb, hexec⟩) hs
  exact ⟨s, hs, Prod.mk.inj heq,
    (wait_safe (show oneRun.interpret = .ok (.batch 1) by decide +kernel)).1 _ s hrun⟩

/-- One run, whose notification is lost. -/
theorem one_run_hung : ¬ ∀ (pool : JobId → Bool × ℤ) (s : Batch ℕ),
    Relation.ReflTransGen (Step oneRun) (Batch.init oneRun pool) s → s.NoneLeft ∧ ¬ s.Hung := by
  intro hall
  obtain ⟨t, hrun, hhung⟩ := exists_hung (ω := ℕ) (by decide +kernel) le_rfl oneRun_fits
  exact (hall _ t hrun).2 hhung

end Batch
end DxRt.Inference
