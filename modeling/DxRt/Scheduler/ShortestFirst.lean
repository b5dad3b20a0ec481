import DxRt.Scheduler.Turns

/-! Shortest job first: the order in which requests leave the heap.

    The heap of a device is followed through any sequence of calls. An element has the time of its
    task as it was known when the element was pushed, 0 before the first measurement. -/

namespace DxRt

namespace RequestElem
variable {e e' : RequestElem} {q q' : List RequestElem}

/-- A step of a heap. -/
inductive HeapEvent where
  | pushed (e : RequestElem)
  | handed (e : RequestElem)
  deriving DecidableEq

variable {l l₁ l₂ : List HeapEvent}

/-- The heap goes through these steps; `tops` is what may be handed over. -/
inductive Runs : List RequestElem → List HeapEvent → List RequestElem → Prop where
  | done {q : List RequestElem} : Runs q [] q
  | pushed {q q' : List RequestElem} {e : RequestElem} {l : List HeapEvent}
      (h : Runs (e :: q) l q') : Runs q (.pushed e :: l) q'
  | handed {q q' : List RequestElem} {e : RequestElem} {l : List HeapEvent} (htop : e ∈ tops q)
      (h : Runs (q.erase e) l q') : Runs q (.handed e :: l) q'

theorem Runs.append (h : Runs q l q') {q'' : List RequestElem} {l' : List HeapEvent}
    (h' : Runs q' l' q'') : Runs q (l ++ l') q'' := by
  induction h with
  | done => exact h'
  | pushed _ ih => exact .pushed (ih h')
  | handed htop _ ih => exact .handed htop (ih h')

theorem Runs.split (h : Runs q (l₁ ++ l₂) q') : ∃ q₁, Runs q l₁ q₁ ∧ Runs q₁ l₂ q' := by
  induction l₁ generalizing q with
  | nil => exact ⟨q, .done, h⟩
  | cons ev l₁ ih =>
    cases h with
    | pushed h =>
      obtain ⟨q₁, h₁, h₂⟩ := ih h
      exact ⟨q₁, .pushed h₁, h₂⟩
    | handed htop h =>
      obtain ⟨q₁, h₁, h₂⟩ := ih h
      exact ⟨q₁, .handed htop h₁, h₂⟩

theorem order_le_of_mem_tops (htop : e' ∈ tops q) (he : e ∈ q) : e'.order ≤ e.order := by
  have hall := List.all_eq_true.mp (List.mem_filter.mp htop).2 e he
  rw [Bool.not_eq_true', Bool.eq_false_iff, Ne, lt_iff] at hall
  exact not_lt.mp hall

/-- An element stays until it is handed over, and what is handed over before is not longer. -/
theorem Runs.order (h : Runs q l q') (he : e ∈ q) (hnot : .handed e ∉ l) :
    e ∈ q' ∧ ∀ e', .handed e' ∈ l → e'.order ≤ e.order := by
  induction h with
  | done => exact ⟨he, fun e' hmem => absurd hmem List.not_mem_nil⟩
  | pushed _ ih =>
    obtain ⟨hstays, hle⟩ := ih (List.mem_cons_of_mem _ he)
      fun hmem => hnot (List.mem_cons_of_mem _ hmem)
    refine ⟨hstays, fun e' hmem => ?_⟩
    rcases List.mem_cons.mp hmem with heq | hmem
    · exact HeapEvent.noConfusion heq
    · exact hle e' hmem
  | @handed q q' top l htop _ ih =>
    have hne : e ≠ top := fun heq => hnot (heq ▸ List.mem_cons_self)
    obtain ⟨hstays, hle⟩ := ih ((List.mem_erase_of_ne hne).mpr he)
      fun hmem => hnot (List.mem_cons_of_mem _ hmem)
    refine ⟨hstays, fun e' hmem => ?_⟩
    rcases List.mem_cons.mp hmem with heq | hmem
    · obtain rfl := HeapEvent.handed.inj heq
      exact order_le_of_mem_tops htop he
    · exact hle e' hmem

/-- The element that `pop` takes. -/
def popElem (q : List RequestElem) (tie : ℕ) : Option RequestElem :=
  (tops q)[tie % (tops q).length]?

theorem pop_eq (q : List RequestElem) (tie : ℕ) : pop q tie =
    match popElem q tie with
    | none => (none, q)
    | some e => (some e.key, q.erase e) := rfl

theorem popElem_mem {tie : ℕ} (h : popElem q tie = some e) : e ∈ tops q :=
  List.mem_of_getElem? h

end RequestElem

namespace Scheduler
open RequestElem

variable {n : ℕ} {d : Fin n} {k : Key} {s : Scheduler .sjf n}

/-- `request_map[d]`. -/
def heap (s : Scheduler .sjf n) (d : Fin n) : List RequestElem := s.queues d

/-- The rounds of `schedule`; a request that the device has refused is pushed again. -/
def heapTurns : ℕ → Env → Fin n → Scheduler .sjf n → List HeapEvent
  | 0, _, _, _ => []
  | fuel + 1, env, d, s =>
    match popElem (s.heap d) (env 0).tie with
    | none => []
    | some e =>
      .handed e :: match attempt (env 0) d e.key (s.setQueue d ((s.heap d).erase e)) with
        | .goesOn s' => heapTurns fuel (fun i => env (i + 1)) d s'
        | .sent _ => []
        | .putBack s' => (s'.heap d).head?.toList.map .pushed

/-- The steps of the heap of device `d` in one call. -/
def heapEvents (s : Scheduler .sjf n) (d : Fin n) : Op n → List HeapEvent
  | .addScheduler env r d' =>
    if d' = d then .pushed ⟨r.reqId, r.procId, s.getTaskInferenceTime r.procId r.taskId⟩ ::
      if s.loads d < SCHED_THRE then
        heapTurns (((s.enqueue r d).queues d).contents.card + 1) env d (s.enqueue r d)
      else []
    else []
  | .finishJobs env d' response =>
    if d' = d then
      heapTurns (((s.answer d response).queues d).contents.card + 1) env d (s.answer d response)
    else []
  | .stopTaskInference .. | .stopAllInferenceForProcess .. | .clearRunningRequests .. => []

def runHeapEvents (d : Fin n) : Scheduler .sjf n → List (Op n) → List HeapEvent
  | _, [] => []
  | s, op :: ops => s.heapEvents d op ++ runHeapEvents d (s.exec op) ops

theorem heap_congr {t : Scheduler .sjf n} (h : t.queues d = s.queues d) : t.heap d = s.heap d := h

theorem heap_setQueue (q : List RequestElem) : (s.setQueue d q).heap d = q :=
  Function.update_self _ _ _

theorem heap_push {t : Scheduler .sjf n} {time : ℕ}
    (h : t.queues = Function.update s.queues d ((s.queues d).push k.1 k.2 time)) :
    t.heap d = ⟨k.2, k.1, time⟩ :: s.heap d := by
  rw [heap, h, Function.update_self]
  rfl

/-- The rounds of `schedule` are steps of the heap of the device, and of no other heap. -/
theorem scheduleUpTo_heap (d : Fin n) : ∀ (fuel : ℕ) (env : Env) (s : Scheduler .sjf n),
    Runs (s.heap d) (heapTurns fuel env d s) ((scheduleUpTo fuel env d s).heap d) ∧
      ∀ d', d' ≠ d → (scheduleUpTo fuel env d s).queues d' = s.queues d'
  | 0, env, s => ⟨.done, fun _ _ => rfl⟩
  | fuel + 1, env, s => by
    have hpop : (s.queues d).pop (env 0).tie = _ := pop_eq (s.heap d) (env 0).tie
    rw [scheduleUpTo, heapTurns, hpop]
    cases helem : popElem (s.heap d) (env 0).tie with
    | none =>
      refine ⟨?_, fun d' hd => Function.update_of_ne hd _ _⟩
      dsimp only
      rw [heap_setQueue]
      exact .done
    | some e =>
      dsimp only
      rw [doInference_eq]
      have hqueue := heap_setQueue (s := s) (d := d) ((s.heap d).erase e)
      have hother : ∀ d', d' ≠ d → (s.setQueue d ((s.heap d).erase e)).queues d' = s.queues d' :=
        fun d' hd => Function.update_of_ne hd _ _
      generalize s.setQueue d ((s.heap d).erase e) = s₀ at hqueue hother ⊢
      have hattempt : Attempted s₀ d e.key (attempt (env 0) d e.key s₀) := attempt_attempted (env 0)
      generalize attempt (env 0) d e.key s₀ = outcome at hattempt ⊢
      cases hattempt with
      | @goesOn s' hcalls =>
        obtain ⟨hruns, hrest⟩ := scheduleUpTo_heap d fuel (fun i => env (i + 1)) s'
        rw [heap_congr (congrFun hcalls.1 d), hqueue] at hruns
        exact ⟨.handed (popElem_mem helem) hruns, fun d' hd =>
          (hrest d' hd).trans ((congrFun hcalls.1 d').trans (hother d' hd))⟩
      | @sent s' _ _ hqueues _ =>
        have hend : s'.heap d = (s.heap d).erase e := (heap_congr (congrFun hqueues d)).trans hqueue
        exact ⟨.handed (popElem_mem helem) (hend ▸ .done),
          fun d' hd => (congrFun hqueues d').trans (hother d' hd)⟩
      | @putBack s' _ _ _ time hqueues _ _ =>
        have hend := heap_push hqueues
        rw [hqueue] at hend
        refine ⟨?_, fun d' hd => ?_⟩
        · dsimp only
          rw [hend]
          exact .handed (popElem_mem helem) (.pushed .done)
        · dsimp only
          rw [hqueues, Function.update_of_ne hd]
          exact hother d' hd

theorem exec_heap (s : Scheduler .sjf n) (d : Fin n) (op : Op n) :
    Runs (s.heap d) (s.heapEvents d op) ((s.exec op).heap d) := by
  have hsame : ∀ {t : Scheduler .sjf n}, OnlyCalls s t → Runs (s.heap d) [] (t.heap d) := by
    intro t h
    rw [heap_congr (congrFun h.1 d)]
    exact .done
  cases op with
  | addScheduler env r d' =>
    rw [heapEvents, exec, heap_congr (congrFun (addScheduler_onlyCalls s env r d').1 d), accept]
    have henqueue : (s.enqueue r d').queues = Function.update s.queues d' ((s.queues d').push
        r.key.1 r.key.2 (s.getTaskInferenceTime r.key.1 r.taskId)) := rfl
    obtain ⟨hruns, hrest⟩ :=
      scheduleUpTo_heap d' (((s.enqueue r d').queues d').contents.card + 1) env (s.enqueue r d')
    rcases eq_or_ne d' d with rfl | hd
    · have hpushed := heap_push henqueue
      rw [if_pos rfl]
      rw [hpushed] at hruns
      split_ifs
      · exact .pushed hruns
      · rw [hpushed]
        exact .pushed .done
    · have hqueue : (s.enqueue r d').queues d = s.queues d := by
        rw [henqueue, Function.update_of_ne hd.symm]
      rw [if_neg hd]
      split_ifs
      · rw [schedule, heap_congr ((hrest d hd.symm).trans hqueue)]
        exact .done
      · rw [heap_congr hqueue]
        exact .done
  | finishJobs env d' response =>
    rw [heapEvents, exec, heap_congr (congrFun (finishJobs_onlyCalls s env d' response).1 d)]
    obtain ⟨hruns, hrest⟩ := scheduleUpTo_heap d'
      (((s.answer d' response).queues d').contents.card + 1) env (s.answer d' response)
    have hanswer : (s.answer d' response).queues d = s.queues d :=
      congrFun (answer_answered s d' response).queues d
    rcases eq_or_ne d' d with rfl | hd
    · rw [if_pos rfl]
      rw [heap_congr hanswer] at hruns
      exact hruns
    · rw [if_neg hd, schedule, heap_congr ((hrest d hd.symm).trans hanswer)]
      exact .done
  | stopTaskInference pid d' taskId =>
    exact hsame (stopped_onlyCalls (stopTaskInference_stopped s pid d' taskId))
  | stopAllInferenceForProcess pid d' =>
    exact hsame (stopped_onlyCalls (stopAll_stopped s pid d'))
  | clearRunningRequests pid d' =>
    exact hsame (stopped_onlyCalls (clearRunningRequests_stopped s pid d'))

theorem runHeapEvents_runs (d : Fin n) (ops : List (Op n)) (s : Scheduler .sjf n) :
    Runs (s.heap d) (runHeapEvents d s ops) ((ops.foldl exec s).heap d) := by
  induction ops generalizing s with
  | nil => exact .done
  | cons op ops ih => exact (exec_heap s d op).append (ih (s.exec op))

/-- In every run of a shortest-job-first scheduler, from the push of a request until the request is
    handed over, no request is handed over that is longer, or as long with a larger id; and what has
    been pushed and not handed over is in the heap. -/
theorem shortest_first (d : Fin n) (ops : List (Op n)) {l₁ l₂ l₃ : List HeapEvent} {e : RequestElem}
    (hrun : runHeapEvents d (init .sjf n) ops = l₁ ++ .pushed e :: (l₂ ++ l₃))
    (hwaits : .handed e ∉ l₂) :
    (∀ e', .handed e' ∈ l₂ → e'.order ≤ e.order) ∧
      (l₃ = [] → e ∈ (ops.foldl exec (init .sjf n)).heap d) := by
  have hruns := runHeapEvents_runs d ops (init .sjf n)
  rw [hrun] at hruns
  obtain ⟨q₁, -, hpush⟩ := hruns.split
  cases hpush with
  | pushed hrest =>
    obtain ⟨q₂, h₂, h₃⟩ := hrest.split
    obtain ⟨hstays, hle⟩ := h₂.order List.mem_cons_self hwaits
    refine ⟨hle, fun hl₃ => ?_⟩
    subst hl₃
    cases h₃ with
    | done => exact hstays

/-- A busy device refuses two requests; the second one has the smaller id. -/
def refusedTwo : List (Op 1) :=
  [.addScheduler (fun _ => ⟨true, false, .ebusy, 0⟩) ⟨1, 5, 0⟩ 0,
    .addScheduler (fun _ => ⟨true, false, .ebusy, 0⟩) ⟨2, 3, 0⟩ 0,
    .finishJobs accepting 0 ⟨3, 1, 0, 0⟩]

theorem shortest_first_refused :
    (∀ e', .handed e' ∈ [HeapEvent.pushed ⟨3, 2, 0⟩, .handed ⟨3, 2, 0⟩, .pushed ⟨3, 2, 0⟩,
      .handed ⟨3, 2, 0⟩] → e'.order ≤ RequestElem.order ⟨5, 1, 0⟩) ∧
      (([] : List HeapEvent) = [] →
        ⟨5, 1, 0⟩ ∈ (refusedTwo.foldl exec (init .sjf 1)).heap 0) := by
  have hrun : runHeapEvents 0 (init .sjf 1) refusedTwo =
      [.pushed ⟨5, 1, 0⟩, .handed ⟨5, 1, 0⟩] ++ .pushed ⟨5, 1, 0⟩ ::
        ([.pushed ⟨3, 2, 0⟩, .handed ⟨3, 2, 0⟩, .pushed ⟨3, 2, 0⟩, .handed ⟨3, 2, 0⟩] ++ []) := by
    decide +kernel
  exact shortest_first 0 refusedTwo hrun (by decide)

end Scheduler
end DxRt
