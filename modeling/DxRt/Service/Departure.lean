import DxRt.Lib.Run
import DxRt.Service.Spec

/-! No leak after a disconnect.

    A disconnect frees the memory of the tasks that it finds in the task store, device by device;
    the tasks that were running are left to `_pendingTaskFree`. So at every moment a block of the
    process is there for a reason: its task is still in the store, or among the entries taken from
    it, or it is entered as a deferred free (`Awaited`). After the requests of the process were
    stopped, a deferred free waits for a job or for a drain notice under way (`Settled`). When
    there is neither, and no call is left in progress, nothing is left. -/

namespace DxRt
variable {p : Policy} {n : ℕ}

/-- Where the disconnect of process `pid` stands, when the thread is one. -/
def Thread.deInitOf (pid : ℤ) : Thread n → Option (Fin n × List (Fin n) × Phase)
  | .deInit pid' d rest phase => if pid' = pid then some (d, rest, phase) else none
  | _ => none

/-- The disconnect of process `pid`, or a drain notice for one of its tasks. -/
def Thread.CleansUp (pid : ℤ) : Thread n → Prop
  | .deInit pid' .. | .onTaskDrained pid' _ | .freeing pid' .. => pid' = pid
  | .taskDeInit .. | .deleteBound .. => False

instance (pid : ℤ) : ∀ th : Thread n, Decidable (th.CleansUp pid)
  | .deInit .. | .onTaskDrained .. | .freeing .. => inferInstanceAs (Decidable (_ = _))
  | .taskDeInit .. | .deleteBound .. => isFalse id

namespace Service
open Scheduler (inFlight)
open MemoryService (Owner)
variable {s t : Service p n} {pid : ℤ}

/-! ### The environment and the two conditions -/

/-- The process whose request a step is. -/
def Op.requester : Op n → Option ℤ
  | .addScheduler _ r _ => some r.procId
  | .onClientDisconnected pid => some pid
  | op => op.client

/-- While process `pid` is leaving, it makes no request; all others go on. -/
def Departing (pid : ℤ) (s : Service p n) (op : Op n) : Prop :=
  Regular s op ∧ op.requester ≠ some pid

/-- A device works on a job of the task, or a drain notice for it is under way. -/
def Busy (s : Service p n) (pid taskId : ℤ) : Prop :=
  (∃ d, JobOn s d pid taskId) ∨ .onTaskDrained pid taskId ∈ s.threads

/-- When the requests of the process are stopped, every deferred free of it still has a job or a
    drain notice to wait for. -/
def Handover (pid : ℤ) (s : Service p n) : Op n → Prop
  | .advance (.deInit pid' _ _ (.stopAll _)) _ _ => pid' = pid →
    ∀ key ∈ s.pendingTaskFree.keys, (ofLex key).1 = pid → Busy s pid (ofLex key).2
  | _ => True

/-- Every block of the process is recorded for a task that is in the task store for the same
    device. -/
def Registered (s : Service p n) (pid : ℤ) : Prop :=
  ∀ d, ((s.mem d).addrsOf (.legacy pid)).isEmpty = true ∧
    ∀ e ∈ (((s.mem d).taskAllocInfo.find? pid).getD .empty).entries,
      s.tasks.hasTask pid d e.1 = true

/-- No device records a block of the process, and `_pendingTaskFree` has no entry of it. -/
def Clean (s : Service p n) (pid : ℤ) : Prop :=
  (∀ d o a, o.pid = pid → ¬ (s.mem d).Owns o a) ∧
    ∀ taskId, s.pendingTaskFree.find? (toLex (pid, taskId)) = none

/-! ### After the requests were stopped -/

structure Settled (pid : ℤ) (s : Service p n) : Prop where
  quiet : ∀ req, s.sched.CancelledOrGone (pid, req)
  busy : ∀ taskId d, s.pendingTaskFree.find? (toLex (pid, taskId)) = some d → Busy s pid taskId

/-- The jobs of a process whose requests are kept are kept. -/
theorem Busy.kept {taskId : ℤ} (hs : SchedInv s) (ht : SchedInv t) (h : Busy s pid taskId)
    (hkept : ∀ req, s.sched.Kept t.sched (pid, req))
    (hthreads : .onTaskDrained pid taskId ∈ s.threads → .onTaskDrained pid taskId ∈ t.threads) :
    Busy t pid taskId := by
  rcases h with hjob | hnotice
  · obtain ⟨req, e, he, hst, htask⟩ := hs.jobOn_iff.mp hjob
    exact Or.inl (ht.jobOn_iff.mpr ⟨req, e, (hkept req).2 e he hst, hst, htask⟩)
  · exact Or.inr (hthreads hnotice)

/-- Steps that keep the requests of the process and its table entries. -/
theorem Settled.kept (hs : SchedInv s) (ht : SchedInv t) (h : Settled pid s)
    (hkept : ∀ req, s.sched.Kept t.sched (pid, req))
    (htable : t.pendingTaskFree = s.pendingTaskFree) (hthreads : ∀ th ∈ s.threads, th ∈ t.threads) :
    Settled pid t where
  quiet req := (h.quiet req).kept (hkept req)
  busy taskId d hfind := by
    rw [htable] at hfind
    exact (h.busy taskId d hfind).kept hs ht hkept (hthreads _)

theorem kept_of_eq {s t : Scheduler p n} {k : Key} (h : t.entry k = s.entry k) : s.Kept t k :=
  ⟨fun he => h.trans he, fun _ he _ => h.trans he⟩

/-- An answer to another process, or to this one: the last answer for a task is followed by a
    drain notice, since no request of the process is pending. -/
theorem Settled.finished (hs : SchedInv s) (h : Settled pid s) {env : Env} {d : Fin n}
    {response : Response} (hreg : Regular s (.finishJobs env d response)) :
    Settled pid (s.finishJobs env d response) := by
  have ht := schedInv_exec hs hreg
  have hkept : ∀ k, k ≠ response.key → s.sched.Kept (s.sched.finishJobs env d response) k :=
    fun k hk => Scheduler.finishJobs_kept hs.submit hk
  have hold : ∀ th ∈ s.threads, th ∈ (s.finishJobs env d response).threads :=
    fun th hth => List.mem_append_right _ hth
  by_cases hpid : response.procId = pid
  · subst hpid
    refine ⟨fun req => ?_, fun taskId d' hfind => ?_⟩
    · by_cases hk : (response.procId, req) = response.key
      · intro e he
        have hgone : (s.sched.finishJobs env d response).entry response.key = none :=
          Scheduler.finishJobs_gone
        rw [← hk] at hgone
        exact absurd (hgone.symm.trans he) nofun
      · exact (h.quiet req).kept (hkept _ hk)
    · rcases h.busy taskId d' hfind with hjob | hnotice
      · obtain ⟨req, e, he, hst, htask⟩ := hs.jobOn_iff.mp hjob
        -- another request of the task, if there is one, is cancelled and still in flight
        by_cases hother : ∃ req' e', (response.procId, req') ≠ response.key ∧
            s.sched.entry (response.procId, req') = some e' ∧ e'.data.taskId = taskId
        · obtain ⟨req', e', hk, he', htask'⟩ := hother
          have hst' : e'.state ≠ .pending := by rw [h.quiet req' e' he']; decide
          exact Or.inl (ht.jobOn_iff.mpr ⟨req', e', (hkept _ hk).2 e' he' hst', hst', htask'⟩)
        · have hkey : (response.procId, req) = response.key := by
            by_contra hk
            exact hother ⟨req, e, hk, he, htask⟩
          rw [hkey] at he
          have hdrained : (s.sched.finishLocked env d response).2.drained =
              some (response.procId, e.data.taskId) :=
            Scheduler.finishJobs_last he fun req' e' hk he' htask' =>
              hother ⟨req', e', hk, he', htask'.trans htask⟩
          refine Or.inr (List.mem_append_left _ (Option.mem_toList.mpr ?_))
          exact Option.map_eq_some_iff.mpr ⟨_, hdrained, by rw [htask]⟩
      · exact Or.inr (hold _ hnotice)
  · refine h.kept hs ht (fun req => hkept _ ?_) rfl hold
    rintro hk
    exact hpid (Prod.mk.inj hk).1.symm

/-- Steps of threads: requests are only stopped, and a notice that is gone has emptied its place in
    the table. -/
theorem Settled.stopped (h : Settled pid s) (hstop : Scheduler.Stopped s.sched t.sched)
    (htable : ∀ taskId d, t.pendingTaskFree.find? (toLex (pid, taskId)) = some d →
      s.pendingTaskFree.find? (toLex (pid, taskId)) = some d ∧
        (.onTaskDrained pid taskId ∈ s.threads → .onTaskDrained pid taskId ∈ t.threads)) :
    Settled pid t where
  quiet req e he := by
    rcases hstop.entry (pid, req) with hsame | ⟨e', he', ⟨_, hnew⟩ | ⟨_, hnew⟩⟩
    · exact h.quiet req e (hsame ▸ he)
    · rw [hnew] at he
      cases he
      rfl
    · rw [hnew] at he
      cases he
  busy taskId d hfind := by
    obtain ⟨hfind, hnotice⟩ := htable taskId d hfind
    rcases h.busy taskId d hfind with ⟨d', job, hmem, hjob⟩ | hold
    · rw [← hstop.inFlight] at hmem
      exact Or.inl ⟨d', job, hmem, hjob⟩
    · exact Or.inr (hnotice hold)

/-! ### The stages of a disconnect -/

/-- A deferred free: entered in `_pendingTaskFree`, or taken from there and about to happen. -/
def Deferred (s : Service p n) (pid : ℤ) (d : Fin n) (taskId : ℤ) : Prop :=
  s.pendingTaskFree.find? (toLex (pid, taskId)) = some d ∨ .freeing pid taskId d ∈ s.threads

/-- Where the disconnect stands; `none` when it has returned. -/
abbrev Stage (n : ℕ) := Option (Fin n × List (Fin n) × Phase)

/-- The task is still to be looked at on the device of the call. -/
def Todo (s : Service p n) (pid : ℤ) (d : Fin n) (taskId : ℤ) : Phase → Prop
  | .readRunning | .deferFree _ | .stopAll _ | .extract _ => s.tasks.hasTask pid d taskId = true
  | .stopTasks _ _ taskEntries | .free _ taskEntries | .deleteBound _ _ taskEntries =>
    taskId ∈ taskEntries.map Prod.fst

/-- Why a block of a task may still be recorded on a device. -/
def Awaited (s : Service p n) (pid : ℤ) (d : Fin n) (taskId : ℤ) : Stage n → Prop
  | none => Deferred s pid d taskId
  | some (d₀, rest, phase) => d = d₀ ∧ Todo s pid d taskId phase ∨
    d ∈ rest ∧ s.tasks.hasTask pid d taskId = true ∨ d ∉ rest ∧ Deferred s pid d taskId

/-- The tasks that the call has entered as deferred. -/
def entered : Phase → List ℤ
  | .readRunning | .deferFree _ => []
  | .stopAll running | .extract running | .stopTasks running .. | .free running _
  | .deleteBound running .. => running

/-- The first device, before the requests are stopped. -/
def Early : Stage n → Prop
  | none => False
  | some (d, rest, phase) => (∀ d', d' = d ∨ d' ∈ rest) ∧
    match phase with
    | .readRunning | .deferFree _ | .stopAll _ => True
    | _ => False

/-- After the requests were stopped, no task is running when a call reads the running tasks. -/
def NoneRunning : Stage n → Prop
  | some (_, _, .deferFree running) => running = []
  | _ => True

structure StageInv (pid : ℤ) (s : Service p n) (stage : Stage n) : Prop where
  threads : s.threads.filterMap (Thread.deInitOf pid) = stage.toList
  nodup : ∀ d rest phase, stage = some (d, rest, phase) → (d :: rest).Nodup
  awaited : ∀ d o a, o.pid = pid → (s.mem d).Owns o a →
    ∃ taskId, o = .task pid taskId ∧ Awaited s pid d taskId stage
  deferred : ∀ d rest phase, stage = some (d, rest, phase) → ∀ taskId ∈ entered phase,
    ∀ a, (s.mem d).Owns (.task pid taskId) a → Deferred s pid d taskId
  settled : Early stage ∨ Settled pid s ∧ NoneRunning stage

/-- A step that is no step of the disconnect. -/
structure Frame (pid : ℤ) (s t : Service p n) : Prop where
  threads : t.threads.filterMap (Thread.deInitOf pid) = s.threads.filterMap (Thread.deInitOf pid)
  records : ∀ d o a, o.pid = pid → (t.mem d).Owns o a → (s.mem d).Owns o a
  tasks : ∀ d, t.tasks.tasksOf pid d = s.tasks.tasksOf pid d
  deferred : ∀ d taskId a, Deferred s pid d taskId → (t.mem d).Owns (.task pid taskId) a →
    Deferred t pid d taskId
  settled : Settled pid s → Settled pid t

theorem StageInv.frame {stage : Stage n} (h : StageInv pid s stage) (hf : Frame pid s t) :
    StageInv pid t stage where
  threads := hf.threads.trans h.threads
  nodup := h.nodup
  awaited d o a ho hown := by
    obtain ⟨taskId, rfl, hwait⟩ := h.awaited d o a ho (hf.records d o a ho hown)
    have htask : t.tasks.hasTask pid d taskId = s.tasks.hasTask pid d taskId := by
      rw [TaskInfoStore.hasTask, TaskInfoStore.hasTask, hf.tasks]
    refine ⟨taskId, rfl, ?_⟩
    rcases stage with _ | ⟨d₀, rest, phase⟩
    · exact hf.deferred d taskId a hwait hown
    · rcases hwait with ⟨hd, htodo⟩ | ⟨hd, hhas⟩ | ⟨hd, hdef⟩
      · refine Or.inl ⟨hd, ?_⟩
        cases phase with
        | readRunning | deferFree | stopAll | extract => exact htask.trans htodo
        | stopTasks | free | deleteBound => exact htodo
      · exact Or.inr (Or.inl ⟨hd, htask.trans hhas⟩)
      · exact Or.inr (Or.inr ⟨hd, hf.deferred d taskId a hdef hown⟩)
  deferred d rest phase heq taskId htask a hown :=
    hf.deferred d taskId a (h.deferred d rest phase heq taskId htask a
      (hf.records d _ a rfl hown)) hown
  settled := h.settled.imp id fun hset => ⟨hf.settled hset.1, hset.2⟩

/-- When the disconnect has returned and nothing of the process is in flight, nothing is left. -/
theorem StageInv.clean (h : StageInv pid s none)
    (hreturned : ∀ th ∈ s.threads, ¬ th.CleansUp pid)
    (hanswered : ∀ d, ∀ job ∈ inFlight d s.sched.log, job.1.1 ≠ pid) : Clean s pid := by
  have hset : Settled pid s := (h.settled.resolve_left id).1
  have htable : ∀ taskId, s.pendingTaskFree.find? (toLex (pid, taskId)) = none := by
    intro taskId
    cases hfind : s.pendingTaskFree.find? (toLex (pid, taskId)) with
    | none => rfl
    | some d =>
      rcases hset.busy taskId d hfind with ⟨d', job, hmem, hpid, _⟩ | hnotice
      · exact absurd hpid (hanswered d' job hmem)
      · exact absurd rfl (hreturned _ hnotice)
  refine ⟨fun d o a ho hown => ?_, htable⟩
  obtain ⟨taskId, rfl, hfind | hfree⟩ := h.awaited d o a ho hown
  · rw [htable] at hfind
    cases hfind
  · exact hreturned _ hfree rfl

/-! ### Steps of others -/

theorem frame_client {pid' : ℤ} (hpid : pid ≠ pid') (hcall : ClientCall pid' s t)
    (hs : SchedInv s) : Frame pid s t := by
  have hmem : ∀ th ∈ s.threads, th ∈ t.threads := by
    intro th hth
    rcases hcall.threads with heq | ⟨d, taskId, bound, heq⟩
    · rwa [heq]
    · rw [heq]
      exact List.mem_cons_of_mem _ hth
  refine ⟨?_, fun d o a ho => hcall.records d o a (ho ▸ hpid), fun d => hcall.tasks pid d hpid,
    fun d taskId a hdef _ => ?_, fun hset => ?_⟩
  · rcases hcall.threads with heq | ⟨d, taskId, bound, heq⟩
    · rw [heq]
    · rw [heq]
      rfl
  · rw [Deferred, hcall.table]
    exact hdef.imp id (hmem _)
  · exact hset.kept hs (hs.congr hcall.sched) (fun req => kept_of_eq (by rw [hcall.sched]))
      hcall.table hmem

theorem frame_added (hs : SchedInv s) {env : Env} {r : Request} {d : Fin n}
    (hreg : Regular s (.addScheduler env r d)) (hpid : r.procId ≠ pid) :
    Frame pid s (s.addScheduler env r d) := by
  refine ⟨rfl, fun _ _ _ _ hown => hown, fun _ => rfl, fun _ _ _ hdef _ => hdef, fun hset => ?_⟩
  refine hset.kept hs (schedInv_exec hs hreg) (fun req => ?_) rfl fun _ hth => hth
  have hfresh : s.sched.FreshKey (.addScheduler env r d) := hreg.1
  refine Scheduler.addScheduler_kept hs.submit hfresh ?_
  rintro hk
  exact hpid (Prod.mk.inj hk).1.symm

theorem frame_finished (hs : SchedInv s) {env : Env} {d : Fin n} {response : Response}
    (hreg : Regular s (.finishJobs env d response)) :
    Frame pid s (s.finishJobs env d response) := by
  refine ⟨?_, fun _ _ _ _ hown => hown, fun _ => rfl, fun d' taskId a hdef _ => ?_, fun hset =>
    hset.finished hs hreg⟩
  · simp only [finishJobs, List.filterMap_append]
    cases (s.sched.finishLocked env d response).2.drained <;> rfl
  · exact hdef.imp id (List.mem_append_right _)

theorem frame_disconnected {pid' : ℤ} (hs : SchedInv s) (hpid : pid' ≠ pid) :
    Frame pid s (s.onClientDisconnected pid') := by
  refine ⟨?_, fun _ _ _ _ hown => hown, fun _ => rfl, fun d' taskId a hdef _ => ?_, fun hset => ?_⟩
  · simp only [onClientDisconnected, List.filterMap_append]
    cases List.finRange n with
    | nil => rfl
    | cons d rest => simp [deInitAll, Thread.deInitOf, hpid]
  · exact hdef.imp id (List.mem_append_right _)
  · exact hset.kept hs (hs.congr rfl) (fun _ => kept_of_eq rfl) rfl
      fun _ hth => List.mem_append_right _ hth

theorem filterMap_erase {α β : Type*} [DecidableEq α] {f : α → Option β} {a : α} (ha : f a = none)
    (l : List α) : (l.erase a).filterMap f = l.filterMap f := by
  induction l with
  | nil => rfl
  | cons b l ih =>
    by_cases hb : b = a
    · subst hb
      rw [List.erase_cons_head, List.filterMap_cons_none ha]
    · rw [List.erase_cons_tail (by simpa using hb), List.filterMap_cons, List.filterMap_cons, ih]

/-- What is left of another thread is another thread. -/
theorem deInitOf_threadStep {th next : Thread n} {order : TaskEntries} {ret : ℤ}
    (hth : th.deInitOf pid = none) (hnext : (s.threadStep order ret th).2 = some next) :
    next.deInitOf pid = none := by
  cases th with
  | deleteBound | freeing => cases hnext
  | taskDeInit =>
    cases hnext
    rfl
  | onTaskDrained =>
    simp only [threadStep] at hnext
    split at hnext
    · cases hnext
    · cases hnext
      rfl
  | deInit pid' d rest phase =>
    have hpid : pid' ≠ pid := by
      rintro rfl
      simp [Thread.deInitOf] at hth
    simp only [threadStep] at hnext
    split at hnext
    · cases hnext
      exact if_neg hpid
    · cases rest with
      | nil => cases hnext
      | cons d' rest =>
        cases hnext
        exact if_neg hpid

theorem tasksOf_extract (store : TaskInfoStore n) (pid : ℤ) (d : Fin n) (order : TaskEntries)
    (q : ℤ) (d' : Fin n) : (store.extractTaskIdsWithBound pid d order).1.tasksOf q d' =
      if q = pid ∧ d' = d then .empty else store.tasksOf q d' := by
  rw [TaskInfoStore.extractTaskIdsWithBound]
  cases hfind : store.find? (toLex (pid, d)) with
  | none =>
    split_ifs with hq
    · rw [hq.1, hq.2, TaskInfoStore.tasksOf, hfind]
      rfl
    · rfl
  | some tasks => exact tasksOf_erase store pid d q d'

theorem threadStep_tasks {th : Thread n} {order : TaskEntries} {ret : ℤ}
    (hth : th.deInitOf pid = none) (d : Fin n) :
    (s.threadStep order ret th).1.tasks.tasksOf pid d = s.tasks.tasksOf pid d := by
  cases th with
  | deleteBound | freeing | taskDeInit => rfl
  | onTaskDrained =>
    simp only [threadStep]
    split <;> rfl
  | deInit pid' d' rest phase =>
    have hpid : pid ≠ pid' := by
      rintro rfl
      simp [Thread.deInitOf] at hth
    cases phase with
    | readRunning | deferFree | stopAll | deleteBound => rfl
    | extract => exact (tasksOf_extract _ pid' d' order pid d).trans (if_neg fun h => hpid h.1)
    | stopTasks running todo taskEntries => cases todo <;> rfl
    | free running taskEntries =>
      cases taskEntries with
      | nil => rfl
      | cons entry taskEntries =>
        simp only [threadStep, deInitStep]
        split_ifs <;> rfl

/-- Other threads take a table entry of the process out only to free what it names. -/
theorem threadStep_find? (s : Service p n) (order : TaskEntries) (ret : ℤ) {th : Thread n}
    (hth : th.deInitOf pid = none) (taskId : ℤ) :
    (s.threadStep order ret th).1.pendingTaskFree.find? (toLex (pid, taskId)) =
      if th = .onTaskDrained pid taskId then none
      else s.pendingTaskFree.find? (toLex (pid, taskId)) := by
  cases th with
  | deleteBound | freeing | taskDeInit => exact (if_neg (by rintro ⟨⟩)).symm
  | onTaskDrained pid' taskId' =>
    simp only [threadStep]
    split
    · rename_i hfind
      split_ifs with heq
      · cases heq
        exact hfind
      · rfl
    · simp only [SortedMap.find?_erase, toLex_inj, Prod.mk.injEq, Thread.onTaskDrained.injEq,
        eq_comm]
  | deInit pid' d' rest phase =>
    have hpid : pid ≠ pid' := by
      rintro rfl
      simp [Thread.deInitOf] at hth
    rw [if_neg (by rintro ⟨⟩)]
    cases phase with
    | readRunning | stopAll | extract | deleteBound => rfl
    | deferFree running =>
      exact (find?_deferFree pid' d' running pid taskId _).trans (if_neg fun h => hpid h.1)
    | stopTasks running todo taskEntries => cases todo <;> rfl
    | free running taskEntries =>
      cases taskEntries with
      | nil => rfl
      | cons entry taskEntries =>
        simp only [threadStep, deInitStep]
        split_ifs <;> rfl

/-- A thread adds no record, and it removes the record that it frees. -/
theorem threadStep_owns {th : Thread n} {order : TaskEntries} {ret : ℤ} {d : Fin n} {o : Owner}
    {a : ℕ} (hown : ((s.threadStep order ret th).1.mem d).Owns o a) :
    (s.mem d).Owns o a ∧ ∀ pid taskId, th.frees = some (d, pid, taskId) → o ≠ .task pid taskId := by
  rw [threadStep_mem] at hown
  cases hfrees : th.frees with
  | none =>
    rw [hfrees] at hown
    exact ⟨hown, nofun⟩
  | some x =>
    obtain ⟨d', pid, taskId⟩ := x
    rw [hfrees] at hown
    simp only [Function.update_apply] at hown
    split_ifs at hown with hd
    · obtain ⟨hne, hown⟩ := MemoryService.owns_deallocateTask.mp hown
      refine ⟨hd ▸ hown, ?_⟩
      rintro _ _ heq
      cases heq
      exact hne
    · refine ⟨hown, ?_⟩
      rintro _ _ heq
      cases heq
      exact absurd rfl hd

theorem frame_moved {th : Thread n} {order : TaskEntries} {ret : ℤ}
    (hth : th.deInitOf pid = none) : Frame pid s { (s.threadStep order ret th).1 with
      threads := (s.threadStep order ret th).2.toList ++ s.threads.erase th } := by
  have hfind := threadStep_find? s order ret hth
  refine ⟨?_, fun d o a _ hown => (threadStep_owns hown).1, threadStep_tasks hth,
    fun d taskId a hdef hown => ?_, fun hset => ?_⟩
  · have hnext : (s.threadStep order ret th).2.toList.filterMap (Thread.deInitOf pid) = [] := by
      cases hstep : (s.threadStep order ret th).2 with
      | none => rfl
      | some next =>
        rw [Option.toList_some, List.filterMap_cons_none (deInitOf_threadStep hth hstep)]
        rfl
    rw [List.filterMap_append, hnext, List.nil_append, filterMap_erase hth]
  · rcases hdef with htable | hfree
    · by_cases hnotice : th = .onTaskDrained pid taskId
      · subst hnotice
        refine Or.inr (List.mem_append_left _ (Option.mem_toList.mpr ?_))
        simp only [threadStep, htable]
      · exact Or.inl ((hfind taskId).trans (by rw [if_neg hnotice, htable]))
    · have hgone := (threadStep_owns hown).2 pid taskId
      by_cases hself : th = .freeing pid taskId d
      · exact absurd rfl (hgone (by rw [hself]; rfl))
      · exact Or.inr (List.mem_append_right _ ((List.mem_erase_of_ne (Ne.symm hself)).mpr hfree))
  · refine hset.stopped (threadStep_stopped s order ret th) fun taskId d htable => ?_
    change (s.threadStep order ret th).1.pendingTaskFree.find? _ = _ at htable
    rw [hfind] at htable
    split_ifs at htable with hnotice
    exact ⟨htable, fun hmem => List.mem_append_right _
      ((List.mem_erase_of_ne (Ne.symm hnotice)).mpr hmem)⟩

end Service
end DxRt
