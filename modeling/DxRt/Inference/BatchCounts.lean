import DxRt.Inference.Batch

/-! lib/inference_engine.cpp: the counter of `runSubBatch`.

    While a call is going on, its counter is the number of its runs whose callbacks have counted;
    so it returns from the wait only when all of them have, and a callback that has not counted
    finds the locals of its call. This needs that `runAsync` does not throw as long as a callback
    of the call has still to count, and that the user's callback does not throw: it would take the
    place of `batch_callback`. -/

namespace DxRt.Inference
variable {ω : Type*}

/-! ### The sub-batches -/

/-- The calls of `runSubBatch` cover what is left of a batch of `total`, from `start` on; all but
    the last are full. -/
def Covers : ℕ → ℕ → List (ℕ × ℕ) → Prop
  | start, total, [] => start = total
  | start, total, (startIndex, batchCount) :: todo =>
    startIndex = start ∧ SUB_BATCH_MAX_COUNT ∣ startIndex ∧ batchCount ≤ SUB_BATCH_MAX_COUNT ∧
      Covers (startIndex + batchCount) total todo

theorem Covers.le : ∀ {todo : List (ℕ × ℕ)} {start total : ℕ}, Covers start total todo →
    start ≤ total
  | [], _, _, h => le_of_eq h
  | (_, _) :: _, _, _, ⟨rfl, _, _, h⟩ => (Nat.le_add_right _ _).trans h.le

theorem covers_subBatchLoop {total : ℕ} {rest : List (ℕ × ℕ)} : ∀ (loops start : ℕ),
    SUB_BATCH_MAX_COUNT ∣ start → Covers (start + loops * SUB_BATCH_MAX_COUNT) total rest →
    Covers start total (subBatchLoop loops start ++ rest)
  | 0, start, _, h => by simpa [subBatchLoop] using h
  | loops + 1, start, hstart, h => by
    refine ⟨rfl, hstart, le_rfl, ?_⟩
    refine covers_subBatchLoop loops _ (Dvd.dvd.add hstart dvd_rfl) ?_
    rwa [Nat.add_assoc, Nat.add_comm SUB_BATCH_MAX_COUNT, ← Nat.succ_mul]

theorem covers_subBatches (batchCount : ℕ) : Covers 0 batchCount (subBatches batchCount) := by
  have hsum : batchCount / SUB_BATCH_MAX_COUNT * SUB_BATCH_MAX_COUNT +
      batchCount % SUB_BATCH_MAX_COUNT = batchCount := Nat.div_add_mod' batchCount _
  refine covers_subBatchLoop _ 0 (dvd_zero _) ?_
  rw [Nat.zero_add]
  split_ifs with hremain
  · exact ⟨rfl, dvd_mul_left _ _, (Nat.mod_lt _ (by decide)).le, hsum⟩
  · simpa [Covers, Nat.eq_zero_of_not_pos hremain] using hsum

/-- The vectors have what the runs of a batch of `total` look up. -/
structure BatchArgs.Fits (a : BatchArgs) (total : ℕ) : Prop where
  inputBuffers : total ≤ a.inputBuffers.length
  outputBuffers : total ≤ a.outputBuffers.length
  userArgs : a.userArgs.length = 0 ∨ total ≤ a.userArgs.length

theorem BatchArgs.Fits.runArgs {a : BatchArgs} {total startIndex i : ℕ} (h : a.Fits total)
    (hi : startIndex + i < total) : ∃ args, a.runArgs startIndex i = some args := by
  have hinput := List.getElem?_eq_getElem (hi.trans_le h.inputBuffers)
  have houtput := List.getElem?_eq_getElem (hi.trans_le h.outputBuffers)
  rcases h.userArgs with huser | huser
  · simp [BatchArgs.runArgs, hinput, houtput, huser]
  · have hlt : i < a.userArgs.length := by omega
    simp [BatchArgs.runArgs, hinput, houtput, List.getElem?_eq_getElem hlt,
      List.ne_nil_of_length_pos (Nat.zero_lt_of_lt hlt)]

/-! ### What the call has started and counted -/

/-- The callback has counted its run. -/
def Callback.counted : Callback ω → Bool
  | .loadCount | .loadCompleted | .notify | .finished | .over => true
  | _ => false

/-- The runs the call has started, by the place of the thread in `Run`. -/
def Main.begun (batchCount : ℕ) : Main → ℕ
  | .loop i | .pick i _ | .prepare i _ _ | .start i _ _ => i
  | .started i => i + 1
  | _ => batchCount

/-- The loop of `runSubBatch` is within its bounds. -/
def Main.within (batchCount : ℕ) : Main → Prop
  | .loop i => i ≤ batchCount
  | .pick i _ | .prepare i _ _ | .start i _ _ | .started i => i < batchCount
  | _ => True

/-- The flag of the call is set. -/
def Main.waiting : Main → Bool
  | .predicate | .block | .asleep => true
  | _ => false

theorem countP_set_of_eq {α : Type*} {p : α → Bool} {l : List α} {k : ℕ} {x y : α}
    (hx : l[k]? = some x) (h : p y = p x) : (l.set k y).countP p = l.countP p := by
  obtain ⟨hlt, rfl⟩ := List.getElem?_eq_some_iff.mp hx
  rw [List.countP_set hlt, h, Nat.sub_add_cancel]
  split_ifs with hp
  · exact List.countP_pos_iff.mpr ⟨_, List.getElem_mem hlt, hp⟩
  · exact Nat.zero_le _

theorem countP_set_succ {α : Type*} {p : α → Bool} {l : List α} {k : ℕ} {x y : α}
    (hx : l[k]? = some x) (hpx : p x = false) (hpy : p y = true) :
    (l.set k y).countP p = l.countP p + 1 := by
  obtain ⟨hlt, rfl⟩ := List.getElem?_eq_some_iff.mp hx
  simp [List.countP_set hlt, hpx, hpy]

namespace Batch
variable {a : BatchArgs} {s t : Batch ω} {total k : ℕ} {r r' : BatchRun ω}

theorem live_iff {subBatch : ℕ} :
    s.live subBatch = true ↔ subBatch = s.subBatch ∧ s.main.inside = true := by simp [live]

/-- The runs of the current call whose callbacks have counted. -/
def counted (s : Batch ω) : ℕ :=
  s.runs.countP fun r => r.callback.counted && decide (r.subBatch = s.subBatch)

/-- The runs of the current call. -/
def ofCall (s : Batch ω) : ℕ := s.runs.countP fun r => decide (r.subBatch = s.subBatch)

structure Counted (total : ℕ) (s : Batch ω) : Prop where
  covers : Covers (s.startIndex + s.batchCount) total s.todo
  aligned : SUB_BATCH_MAX_COUNT ∣ s.startIndex
  size : s.batchCount ≤ SUB_BATCH_MAX_COUNT
  number : ∀ r ∈ s.runs, r.subBatch ≤ s.subBatch
  gone : ∀ r ∈ s.runs, s.live r.subBatch = false → r.callback.counted = true
  within : s.main.within s.batchCount
  begun : s.main.inside = true → s.ofCall = s.main.begun s.batchCount
  completeCount : s.main.inside = true → s.completeCount = s.counted
  isCompleted : s.main.waiting = true → s.isCompleted = true

theorem Counted.init {pool : JobId → Bool × ℤ} (h : a.interpret = .ok (.batch total)) :
    Counted total (init a pool : Batch ω) := by
  rw [Batch.init, h]
  constructor <;>
    simp [checked, idle, Main.within, Main.inside, Main.waiting, covers_subBatches]

/-- When the counter has the value of what was started, every callback of the call has counted. -/
theorem Counted.all_counted (h : Counted total s) (hin : s.main.inside = true)
    (hbegun : s.completeCount = s.main.begun s.batchCount) (hr : r ∈ s.runs)
    (hcall : r.subBatch = s.subBatch) : r.callback.counted = true := by
  have hcounted : s.counted = s.ofCall := by rw [← h.completeCount hin, hbegun, h.begun hin]
  have hall : (s.runs.filter fun r => decide (r.subBatch = s.subBatch)).countP
      (fun r => r.callback.counted) =
      (s.runs.filter fun r => decide (r.subBatch = s.subBatch)).length := by
    rw [List.countP_filter, ← List.countP_eq_length_filter]
    exact hcounted
  exact List.countP_eq_length.mp hall r (by simp [hr, hcall])

/-! ### What the steps keep -/

/-- The thread in `Run` moves within the call, or leaves it when all callbacks have counted. -/
theorem Counted.move (h : Counted total s) (main : Main) (isCompleted : Bool)
    (jobs : JobId → JobSlot) (result : List (Option ω))
    (hin : main.inside = true →
      s.main.inside = true ∧ main.begun s.batchCount = s.main.begun s.batchCount)
    (hwithin : main.within s.batchCount) (hwaiting : main.waiting = true → isCompleted = true)
    (hout : main.inside = false → ∀ r ∈ s.runs, s.live r.subBatch = true →
      r.callback.counted = true) :
    Counted total
      { s with main := main, isCompleted := isCompleted, jobs := jobs, result := result } where
  covers := h.covers
  aligned := h.aligned
  size := h.size
  number := h.number
  gone r hr hlive := by
    by_cases hold : s.live r.subBatch = true
    · by_cases hmain : main.inside = true
      · simp [live, hmain, (live_iff.mp hold).1] at hlive
      · exact hout (Bool.eq_false_iff.mpr hmain) r hr hold
    · exact h.gone r hr (Bool.eq_false_iff.mpr hold)
  within := hwithin
  begun hmain := (h.begun (hin hmain).1).trans (hin hmain).2.symm
  completeCount hmain := h.completeCount (hin hmain).1
  isCompleted := hwaiting

theorem Counted.call (h : Counted total s) {startIndex batchCount : ℕ} {todo : List (ℕ × ℕ)}
    (hmain : s.main = .next) (htodo : s.todo = (startIndex, batchCount) :: todo) :
    Counted total (s.call startIndex batchCount todo) := by
  have hcovers := h.covers
  rw [htodo] at hcovers
  obtain ⟨-, haligned, hsize, hrest⟩ := hcovers
  have hnew : ∀ r ∈ s.runs, r.subBatch ≠ s.subBatch + 1 := by
    intro r hr
    exact (Nat.lt_succ_of_le (h.number r hr)).ne
  exact
    { covers := hrest
      aligned := haligned
      size := hsize
      number := fun r hr => (h.number r hr).trans (Nat.le_succ _)
      gone := fun r hr _ => h.gone r hr (by simp [live, hmain, Main.inside])
      within := Nat.zero_le _
      begun := fun _ => List.countP_eq_zero.mpr fun r hr => by simp [Batch.call, hnew r hr]
      completeCount := fun _ =>
        (List.countP_eq_zero.mpr fun r hr => by simp [Batch.call, hnew r hr]).symm
      isCompleted := fun hw => by simp [Batch.call, Main.waiting] at hw }

/-- `startJob` starts one run more. -/
theorem Counted.start (h : Counted total s) {i : ℕ} {args : RunArgs} {j : JobId}
    (hmain : s.main = .start i args j) :
    Counted total { s with
      runs := s.runs ++ [⟨args, j, s.subBatch, none, .requests⟩], main := .started i } := by
  have hin : s.main.inside = true := by rw [hmain]; rfl
  have hlive : ∀ n, s.live n = decide (n = s.subBatch) := by simp [live, hin]
  refine
    { covers := h.covers
      aligned := h.aligned
      size := h.size
      number := ?_
      gone := ?_
      within := by simpa [hmain, Main.within] using h.within
      begun := fun _ => ?_
      completeCount := fun _ => ?_
      isCompleted := fun hw => by simp [Main.waiting] at hw }
  · intro r hr
    rcases List.mem_append.mp hr with hr | hr
    · exact h.number r hr
    · exact (congrArg BatchRun.subBatch (List.mem_singleton.mp hr)).le
  · intro r hr hgone
    have hgone' : r.subBatch ≠ s.subBatch := by simpa [live, Main.inside] using hgone
    rcases List.mem_append.mp hr with hr | hr
    · exact h.gone r hr (by simp [hlive, hgone'])
    · exact absurd (congrArg BatchRun.subBatch (List.mem_singleton.mp hr)) hgone'
  · have hbegun := h.begun hin
    simp only [hmain, Main.begun] at hbegun
    simp [ofCall, Main.begun, ← hbegun]
  · have hcount := h.completeCount hin
    simpa [counted, Callback.counted] using hcount

theorem Counted.mem_setRun (hk : s.runs[k]? = some r) {p : BatchRun ω → Prop}
    (hall : ∀ r ∈ s.runs, p r) (hr' : p r → p r') : ∀ r ∈ (s.setRun k r').runs, p r := by
  intro r₁ hr₁
  rcases List.mem_or_eq_of_mem_set hr₁ with hmem | rfl
  · exact hall r₁ hmem
  · exact hr' (hall r (List.mem_of_getElem? hk))

/-- A run goes on without counting. -/
theorem Counted.setRun (h : Counted total s) (hk : s.runs[k]? = some r)
    (hcall : r'.subBatch = r.subBatch) (hsame : r'.callback.counted = r.callback.counted) :
    Counted total (s.setRun k r') where
  covers := h.covers
  aligned := h.aligned
  size := h.size
  number := mem_setRun hk h.number fun hr => hcall ▸ hr
  gone := mem_setRun hk h.gone fun hr => by
    rw [hsame, hcall]
    exact hr
  within := h.within
  begun hin := (countP_set_of_eq hk (by rw [hcall])).trans (h.begun hin)
  completeCount hin := (h.completeCount hin).trans
    (countP_set_of_eq hk (by rw [hsame, hcall])).symm
  isCompleted := h.isCompleted

/-- A callback counts its run. -/
theorem Counted.count (h : Counted total s) (hk : s.runs[k]? = some r)
    (hcount : r.callback = .count) :
    Counted total ({ s with completeCount := s.completeCount + 1 }.setRun k
      { r with callback := .loadCount }) := by
  have hlive : s.live r.subBatch = true := by
    by_contra hgone
    have hcounted := h.gone r (List.mem_of_getElem? hk) (Bool.eq_false_iff.mpr hgone)
    simp [hcount, Callback.counted] at hcounted
  exact
    { covers := h.covers
      aligned := h.aligned
      size := h.size
      number := mem_setRun hk h.number id
      gone := mem_setRun hk h.gone fun _ _ => rfl
      within := h.within
      begun := fun hin => by
        refine Eq.trans (b := s.ofCall) ?_ (h.begun hin)
        exact countP_set_of_eq hk rfl
      completeCount := fun hin => by
        refine (congrArg (· + 1) (h.completeCount hin)).trans (countP_set_succ hk ?_ ?_).symm
        · simp [hcount, Callback.counted]
        · simpa [Callback.counted] using (live_iff.mp hlive).1
      isCompleted := h.isCompleted }

theorem Counted.mainStep (h : Counted total s) (hfits : a.Fits total)
    (hstep : s.mainStep a = some t) : Counted total t := by
  have hwithin := h.within
  have hbegun := h.begun
  have hcompleted := h.isCompleted
  cases hmain : s.main <;>
    simp only [Batch.mainStep, hmain, reduceCtorEq, Option.some.injEq] at hstep
  case next =>
    split at hstep
    case h_1 =>
      obtain rfl := Option.some.inj hstep
      exact h.move .returned s.isCompleted s.jobs s.result (by simp [Main.inside]) trivial
        (by simp [Main.waiting]) fun _ r _ hlive => by simp [live, hmain, Main.inside] at hlive
    case h_2 startIndex batchCount todo htodo =>
      obtain rfl := Option.some.inj hstep
      exact h.call hmain htodo
  case loop i =>
    simp only [hmain, Main.within] at hwithin
    split_ifs at hstep with hi
    · have hlt : s.startIndex + i < total := by
        have hle := h.covers.le
        omega
      obtain ⟨args, hargs⟩ := hfits.runArgs hlt
      simp only [hargs, Option.some.injEq] at hstep
      subst hstep
      exact h.move (.pick i args) s.isCompleted s.jobs s.result
        (by simp [hmain, Main.inside, Main.begun]) hi (by simp [Main.waiting]) (by simp [Main.inside])
    · obtain rfl := Option.some.inj hstep
      obtain rfl : i = s.batchCount := by omega
      exact h.move .setCompleted s.isCompleted s.jobs s.result
        (by simp [hmain, Main.inside, Main.begun]) trivial (by simp [Main.waiting])
        (by simp [Main.inside])
  case prepare i args j =>
    subst hstep
    exact h.move (.start i args j) s.isCompleted _ s.result
      (by simp [hmain, Main.inside, Main.begun]) (by simpa [hmain, Main.within] using hwithin)
      (by simp [Main.waiting]) (by simp [Main.inside])
  case start i args j =>
    subst hstep
    exact h.start hmain
  case started i =>
    subst hstep
    exact h.move (.loop (i + 1)) s.isCompleted s.jobs s.result
      (by simp [hmain, Main.inside, Main.begun]) (by simpa [hmain, Main.within] using hwithin)
      (by simp [Main.waiting]) (by simp [Main.inside])
  case setCompleted =>
    subst hstep
    exact h.move .predicate true s.jobs s.result (by simp [hmain, Main.inside, Main.begun]) trivial
      (fun _ => rfl) (by simp [Main.inside])
  case predicate =>
    subst hstep
    split_ifs with hcount
    · refine h.move .next s.isCompleted s.jobs s.result (by simp [Main.inside]) trivial
        (by simp [Main.waiting]) ?_
      intro _ r hr hlive
      exact h.all_counted (by simp [hmain, Main.inside]) (by simpa [hmain, Main.begun] using hcount)
        hr (live_iff.mp hlive).1
    · exact h.move .block s.isCompleted s.jobs s.result (by simp [hmain, Main.inside, Main.begun])
        trivial (fun _ => hcompleted (by simp [hmain, Main.waiting])) (by simp [Main.inside])
  case block =>
    subst hstep
    exact h.move .asleep s.isCompleted s.jobs s.result (by simp [hmain, Main.inside, Main.begun])
      trivial (fun _ => hcompleted (by simp [hmain, Main.waiting])) (by simp [Main.inside])

@[simp] theorem notifyOne_runs : s.notifyOne.runs = s.runs := by
  unfold Batch.notifyOne
  split_ifs <;> rfl

theorem Counted.notifyOne (h : Counted total s) : Counted total s.notifyOne := by
  unfold Batch.notifyOne
  split_ifs with hmain
  · exact h.move .predicate s.isCompleted s.jobs s.result
      (by simp [hmain, Main.inside, Main.begun]) trivial
      (fun _ => h.isCompleted (by simp [hmain, Main.waiting])) (by simp [Main.inside])
  · exact h

/-- The jobs and the results do not matter to the counter. -/
theorem Counted.frame (h : Counted total s) (jobs : JobId → JobSlot) (result : List (Option ω)) :
    Counted total { s with jobs := jobs, result := result } :=
  h.move s.main s.isCompleted jobs result (fun hin => ⟨hin, rfl⟩) h.within h.isCompleted
    fun hin r _ hlive => by simp [live, hin] at hlive

theorem Counted.callbackStep {hits : Bool} {callback : Callback ω} (h : Counted total s)
    (hk : s.runs[k]? = some r) (hstep : s.callbackStep r hits = some (callback, t)) :
    Counted total (t.setRun k { r with callback := callback }) := by
  cases hcallback : r.callback <;>
    simp only [Batch.callbackStep, hcallback, reduceCtorEq, Option.some.injEq, Prod.mk.injEq]
      at hstep
  all_goals obtain ⟨rfl, rfl⟩ := hstep
  case userCallback => exact h.setRun hk rfl (by simp [hcallback, Callback.counted])
  case getBatchIndex => exact h.setRun hk rfl (by simp [hcallback, Callback.counted])
  case store =>
    refine Counted.setRun (r := r) ?_ ?_ rfl (by simp [hcallback, Callback.counted])
    · split_ifs
      · exact h.frame s.jobs _
      · exact h
    · split_ifs <;> exact hk
  case count =>
    by_cases hlive : s.live r.subBatch = true
    · simpa [hlive] using h.count hk hcallback
    · have hcounted := h.gone r (List.mem_of_getElem? hk) (Bool.eq_false_iff.mpr hlive)
      simp [hcallback, Callback.counted] at hcounted
  case loadCount =>
    refine h.setRun hk rfl ?_
    simp only [hcallback]
    split_ifs <;> rfl
  case loadCompleted =>
    refine h.setRun hk rfl ?_
    simp only [hcallback]
    split_ifs <;> rfl
  case notify =>
    refine Counted.setRun (r := r) ?_ ?_ rfl (by simp [hcallback, Callback.counted])
    · split_ifs
      · exact h.notifyOne
      · exact h
    · split_ifs
      · simpa using hk
      · exact hk
  case finished =>
    exact (h.frame _ s.result).setRun hk rfl (by simp [hcallback, Callback.counted])

/-- A step, when nothing throws before all callbacks of the call have counted. -/
theorem Counted.step {b : BatchActor ω} (h : Counted total s) (hfits : a.Fits total)
    (hexec : s.exec a b = some t) (huser : ∀ k, b ≠ .userThrows k)
    (hthrows : b = .throws → ∀ r ∈ s.runs, s.live r.subBatch = true → r.callback.counted = true) :
    Counted total t := by
  cases b <;> simp only [Batch.exec] at hexec
  case main => exact h.mainStep hfits hexec
  case pick j =>
    split at hexec
    case h_1 i args hmain =>
      split_ifs at hexec
      obtain rfl := Option.some.inj hexec
      exact h.move (.prepare i args j) s.isCompleted _ s.result
        (by simp [hmain, Main.inside, Main.begun]) (by simpa [hmain, Main.within] using h.within)
        (by simp [Main.waiting]) (by simp [Main.inside])
    case h_2 => cases hexec
  case throws =>
    have hleave : Counted total { s with main := .next } :=
      h.move .next s.isCompleted s.jobs s.result (by simp [Main.inside]) trivial
        (by simp [Main.waiting]) fun _ => hthrows rfl
    split at hexec <;> simp only [Option.some.injEq, reduceCtorEq] at hexec
    all_goals
      subst hexec
      exact hleave
  case wakeUp =>
    split_ifs at hexec with hmain
    obtain rfl := Option.some.inj hexec
    have hnotify := h.notifyOne
    rwa [Batch.notifyOne, if_pos hmain] at hnotify
  case complete k outputs =>
    split at hexec
    case h_1 r hk =>
      split at hexec
      case h_1 hcallback =>
        obtain rfl := Option.some.inj hexec
        exact h.setRun hk rfl (by simp [hcallback, Callback.counted])
      case h_2 => cases hexec
    case h_2 => cases hexec
  case userThrows k => exact absurd rfl (huser k)
  case callback k hits =>
    split at hexec
    case h_1 r hk =>
      obtain ⟨⟨callback, s'⟩, hstep, rfl⟩ := Option.map_eq_some_iff.mp hexec
      exact h.callbackStep hk hstep
    case h_2 => cases hexec
  case foreign j useFlag batchIndex =>
    split_ifs at hexec
    obtain rfl := Option.some.inj hexec
    exact h.frame _ s.result

end Batch
end DxRt.Inference
