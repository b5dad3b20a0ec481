import DxRt.Lib.Run
import DxRt.Service.Spec

/-! No free under a running job.

    A disconnect reads the running tasks, and later deallocates every other task; a task that was
    running is deallocated when it is drained. `mayFree` is what a thread in progress may still
    deallocate. The invariant is that no device works on a job of such a task. It can only break
    where a thread commits itself, or where a device is given a job: a run that is undisturbed
    at these places never frees memory under a job. -/

namespace DxRt
variable {p : Policy} {n : ℕ}

/-- The tasks that `HandleProcessDeInit` may still deallocate on its device. -/
def Phase.mayFree : Phase → ℤ → Prop
  | .readRunning, _ => False
  | .deferFree running, taskId | .stopAll running, taskId | .extract running, taskId =>
    taskId ∉ running
  | .stopTasks running _ taskEntries, taskId | .free running taskEntries, taskId
  | .deleteBound running _ taskEntries, taskId =>
    taskId ∉ running ∧ taskId ∈ taskEntries.map Prod.fst

/-- The memory that a thread may still deallocate; `table` is `_pendingTaskFree`. -/
def Thread.mayFree (table : SortedMap (ℤ ×ₗ ℤ) (Fin n)) : Thread n → Fin n → ℤ → ℤ → Prop
  | .deInit pid d _ phase, d', pid', taskId => d' = d ∧ pid' = pid ∧ phase.mayFree taskId
  | .onTaskDrained pid taskId, d', pid', taskId' =>
    pid' = pid ∧ taskId' = taskId ∧ table.find? (toLex (pid, taskId)) = some d'
  | .freeing pid taskId d, d', pid', taskId' => d' = d ∧ pid' = pid ∧ taskId' = taskId
  | .taskDeInit .., _, _, _ | .deleteBound .., _, _, _ => False

instance : ∀ (phase : Phase) (taskId : ℤ), Decidable (phase.mayFree taskId)
  | .readRunning, _ => isFalse id
  | .deferFree _, _ | .stopAll _, _ | .extract _, _ => inferInstanceAs (Decidable (¬ _))
  | .stopTasks .., _ | .free .., _ | .deleteBound .., _ => inferInstanceAs (Decidable (_ ∧ _))

instance (table : SortedMap (ℤ ×ₗ ℤ) (Fin n)) :
    ∀ (th : Thread n) (d : Fin n) (pid taskId : ℤ), Decidable (th.mayFree table d pid taskId)
  | .deInit .., _, _, _ | .onTaskDrained .., _, _, _ | .freeing .., _, _, _ =>
    inferInstanceAs (Decidable (_ ∧ _ ∧ _))
  | .taskDeInit .., _, _, _ | .deleteBound .., _, _, _ => isFalse id

theorem Thread.mayFree_of_frees {th : Thread n} {d : Fin n} {pid taskId : ℤ}
    (h : th.frees = some (d, pid, taskId)) (table : SortedMap (ℤ ×ₗ ℤ) (Fin n)) :
    th.mayFree table d pid taskId := by
  cases th with
  | taskDeInit | deleteBound | onTaskDrained => cases h
  | freeing pid' taskId' d' =>
    cases h
    exact ⟨rfl, rfl, rfl⟩
  | deInit pid' d' rest phase =>
    cases phase with
    | readRunning | deferFree | stopAll | extract | stopTasks | deleteBound => cases h
    | free running taskEntries =>
      cases taskEntries with
      | nil => cases h
      | cons entry taskEntries =>
        simp only [Thread.frees] at h
        split_ifs at h with hrun
        cases h
        exact ⟨rfl, rfl, hrun, List.mem_cons_self ..⟩

/-- Fewer table entries, fewer threads that may free. -/
theorem Thread.mayFree.mono {table table' : SortedMap (ℤ ×ₗ ℤ) (Fin n)} {th : Thread n}
    {d : Fin n} {pid taskId : ℤ} (h : th.mayFree table' d pid taskId)
    (htable : ∀ key d, table'.find? key = some d → table.find? key = some d) :
    th.mayFree table d pid taskId := by
  cases th with
  | deInit | freeing | taskDeInit | deleteBound => exact h
  | onTaskDrained pid' taskId' => exact ⟨h.1, h.2.1, htable _ _ h.2.2⟩

namespace Service
open Scheduler (inFlight)
variable {s t : Service p n}

/-- `HandleProcessDeInit` or `onTaskDrained` is about to deallocate memory that is recorded for a
    task the device works on. -/
def FreesUnderJob (s : Service p n) : Prop :=
  ∃ th ∈ s.threads, ∃ d pid taskId, th.frees = some (d, pid, taskId) ∧
    (∃ a, (s.mem d).Owns (.task pid taskId) a) ∧ JobOn s d pid taskId

/-- No thread may free memory of a task that the device works on. -/
def JobSafe (s : Service p n) : Prop :=
  ∀ th ∈ s.threads, ∀ d pid taskId, th.mayFree s.pendingTaskFree d pid taskId →
    ¬ JobOn s d pid taskId

theorem JobSafe.not_freesUnderJob (h : JobSafe s) : ¬ FreesUnderJob s := by
  rintro ⟨th, hth, d, pid, taskId, hfrees, _, hjob⟩
  exact h th hth d pid taskId (Thread.mayFree_of_frees hfrees _) hjob

/-- No request that waits for device `d` belongs to a task that some thread may free on `d`. -/
def Unthreatened (s : Service p n) (d : Fin n) : Prop :=
  ∀ k ∈ s.sched.queued d, ∀ e ∈ s.sched.entry k, ∀ th ∈ s.threads,
    ¬ th.mayFree s.pendingTaskFree d k.1 e.data.taskId

/-- The places where the invariant can break. When a device may be given a job, neither a waiting
    request nor the new one belongs to a task about to be freed there. When the running tasks are
    read, they include every task of the process that the device works on. When the deferred frees
    are entered, no `onTaskDrained` of an earlier idle time is still under way for a task that the
    device works on again. -/
def Undisturbed (s : Service p n) : Op n → Prop
  | .addScheduler _ r d => Unthreatened s d ∧
    ∀ th ∈ s.threads, ¬ th.mayFree s.pendingTaskFree d r.procId r.taskId
  | .finishJobs _ d _ => Unthreatened s d
  | .advance (.deInit pid d _ .readRunning) _ _ =>
    ∀ job ∈ inFlight d s.sched.log, job.1.1 = pid → job.2 ∈ s.sched.getRunningTaskIds pid
  | .advance (.deInit pid d _ (.deferFree running)) _ _ =>
    ∀ taskId ∈ running, .onTaskDrained pid taskId ∈ s.threads → ¬ JobOn s d pid taskId
  | _ => True

/-! ### One step -/

theorem JobSafe.mono (h : JobSafe s)
    (hjob : ∀ d pid taskId, JobOn t d pid taskId → JobOn s d pid taskId)
    (hthreads : ∀ th ∈ t.threads, ∀ d pid taskId, th.mayFree t.pendingTaskFree d pid taskId →
      (∃ th' ∈ s.threads, th'.mayFree s.pendingTaskFree d pid taskId) ∨ ¬ JobOn s d pid taskId) :
    JobSafe t := by
  intro th hth d pid taskId hfree hon
  rcases hthreads th hth d pid taskId hfree with ⟨th', hth', hfree'⟩ | hno
  · exact h th' hth' d pid taskId hfree' (hjob d pid taskId hon)
  · exact hno (hjob d pid taskId hon)

/-- The table only loses entries, except where the deferred frees are entered. -/
theorem threadStep_table (s : Service p n) (order : TaskEntries) (ret : ℤ) {th : Thread n}
    (hth : ∀ pid d rest running, th ≠ .deInit pid d rest (.deferFree running)) (key : ℤ ×ₗ ℤ)
    (d : Fin n) (hfind : (s.threadStep order ret th).1.pendingTaskFree.find? key = some d) :
    s.pendingTaskFree.find? key = some d := by
  cases th with
  | taskDeInit | deleteBound | freeing => exact hfind
  | onTaskDrained pid taskId =>
    simp only [threadStep] at hfind
    split at hfind
    · exact hfind
    · simp only [SortedMap.find?_erase] at hfind
      split_ifs at hfind
      exact hfind
  | deInit pid d' rest phase =>
    cases phase with
    | readRunning | stopAll | extract | deleteBound => exact hfind
    | deferFree running => exact absurd rfl (hth pid d' rest running)
    | stopTasks running todo taskEntries => cases todo <;> exact hfind
    | free running taskEntries =>
      cases taskEntries with
      | nil => exact hfind
      | cons entry taskEntries =>
        simp only [threadStep, deInitStep] at hfind
        split_ifs at hfind <;> exact hfind

/-- What is left of a thread may free what the thread may free, once the running tasks are read. -/
theorem threadStep_mayFree (s : Service p n) (order : TaskEntries) (ret : ℤ) {th next : Thread n}
    (hth : ∀ pid d rest, th ≠ .deInit pid d rest .readRunning)
    (hnext : (s.threadStep order ret th).2 = some next) {d : Fin n} {pid taskId : ℤ}
    (hfree : next.mayFree (s.threadStep order ret th).1.pendingTaskFree d pid taskId) :
    th.mayFree s.pendingTaskFree d pid taskId := by
  cases th with
  | deleteBound | freeing => cases hnext
  | taskDeInit =>
    cases hnext
    exact hfree
  | onTaskDrained pid' taskId' =>
    simp only [threadStep] at hnext
    split at hnext
    · cases hnext
    · rename_i d' hfind
      cases hnext
      obtain ⟨rfl, rfl, rfl⟩ := hfree
      exact ⟨rfl, rfl, hfind⟩
  | deInit pid' d' rest phase =>
    cases phase with
    | readRunning => exact absurd rfl (hth pid' d' rest)
    | deferFree | stopAll | deleteBound =>
      cases hnext
      exact hfree
    | extract =>
      cases hnext
      exact ⟨hfree.1, hfree.2.1, hfree.2.2.1⟩
    | stopTasks running todo taskEntries =>
      cases todo <;> (cases hnext; exact hfree)
    | free running taskEntries =>
      cases taskEntries with
      | nil =>
        cases rest with
        | nil => cases hnext
        | cons d' rest =>
          cases hnext
          exact absurd hfree.2.2 id
      | cons entry taskEntries =>
        cases hnext
        exact ⟨hfree.1, hfree.2.1, hfree.2.2.1, List.mem_cons_of_mem _ hfree.2.2.2⟩

theorem jobSafe_added (h : JobSafe s) {env : Env} {r : Request} {d : Fin n}
    (hop : Undisturbed s (.addScheduler env r d)) : JobSafe (s.addScheduler env r d) := by
  rintro th hth d' pid taskId hfree ⟨⟨k, taskId'⟩, hjob, rfl, rfl⟩
  rcases Scheduler.addScheduler_inFlight hjob with hold | ⟨rfl, ⟨rfl, rfl⟩ | ⟨hq, e, he, rfl⟩⟩
  · exact h th hth d' k.1 taskId' hfree ⟨_, hold, rfl, rfl⟩
  · exact hop.2 th hth hfree
  · exact hop.1 k hq e he th hth hfree

/-- A drained task has no job, so its `onTaskDrained` may come at once. -/
theorem jobSafe_finished (hs : SchedInv s) (h : JobSafe s) {env : Env} {d : Fin n}
    {response : Response} (hreg : Regular s (.finishJobs env d response))
    (hop : Undisturbed s (.finishJobs env d response)) : JobSafe (s.finishJobs env d response) := by
  rintro th hth d' pid taskId hfree ⟨⟨k, taskId'⟩, hjob, rfl, rfl⟩
  rcases List.mem_append.mp hth with hnew | hold
  · obtain ⟨task, hdrained, rfl⟩ := Option.map_eq_some_iff.mp (Option.mem_toList.mp hnew)
    obtain ⟨hpid, htask, _⟩ := hfree
    have hflight := (schedInv_exec hs hreg).flight
    obtain ⟨e, he, hwork⟩ := Option.bind_eq_some_iff.mp ((hflight.flying d' k taskId').mp hjob)
    split_ifs at hwork
    obtain ⟨_, rfl⟩ := Prod.mk.inj (Option.some.inj hwork)
    refine Scheduler.finishJobs_drained hdrained k.2 e ?_ htask
    rw [← hpid]
    exact he
  · rcases Scheduler.finishJobs_inFlight hjob with hjob | ⟨rfl, hq, e, he, rfl⟩
    · exact h th hold d' k.1 taskId' hfree ⟨_, hjob, rfl, rfl⟩
    · exact hop k hq e he th hold hfree

theorem jobSafe_moved (h : JobSafe s) {th : Thread n} {order : TaskEntries} {ret : ℤ}
    (hth : th ∈ s.threads) (hop : Undisturbed s (.advance th order ret)) :
    JobSafe { (s.threadStep order ret th).1 with
      threads := (s.threadStep order ret th).2.toList ++ s.threads.erase th } := by
  have hjob : ∀ d pid taskId, JobOn (s.threadStep order ret th).1 d pid taskId →
      JobOn s d pid taskId := by
    rintro d pid taskId ⟨job, hmem, hjob⟩
    rw [(threadStep_stopped s order ret th).inFlight] at hmem
    exact ⟨job, hmem, hjob⟩
  refine h.mono hjob fun th' hth' d pid taskId hfree => ?_
  rcases List.mem_append.mp hth' with hnext | hold
  · -- the thread itself
    have hnext := Option.mem_toList.mp hnext
    by_cases hread : ∃ pid d rest, th = .deInit pid d rest .readRunning
    · obtain ⟨pid', d', rest, rfl⟩ := hread
      cases hnext
      obtain ⟨rfl, rfl, hnot⟩ := hfree
      refine Or.inr ?_
      rintro ⟨job, hmem, hpid, rfl⟩
      exact hnot (hop job hmem hpid)
    · refine Or.inl ⟨th, hth, threadStep_mayFree s order ret (fun pid d rest heq => ?_) hnext hfree⟩
      exact hread ⟨pid, d, rest, heq⟩
  · -- another thread, under a new table
    have hmem : th' ∈ s.threads := List.mem_of_mem_erase hold
    by_cases hdefer : ∃ pid d rest running, th = .deInit pid d rest (.deferFree running)
    · obtain ⟨pid', d', rest, running, rfl⟩ := hdefer
      cases th' with
      | deInit | freeing | taskDeInit | deleteBound =>
        refine Or.inl ⟨_, hmem, ?_⟩
        exact hfree
      | onTaskDrained pid'' taskId' =>
        obtain ⟨rfl, rfl, hfind⟩ := hfree
        change (deferFree pid' d' running s.pendingTaskFree).find? _ = _ at hfind
        rw [find?_deferFree] at hfind
        split_ifs at hfind with hin
        · obtain ⟨rfl, hin⟩ := hin
          cases hfind
          exact Or.inr (hop taskId hin hmem)
        · exact Or.inl ⟨_, hmem, rfl, rfl, hfind⟩
    · refine Or.inl ⟨th', hmem, hfree.mono fun key d hfind => ?_⟩
      exact threadStep_table s order ret (fun pid d rest running heq =>
        hdefer ⟨pid, d, rest, running, heq⟩) key d hfind

theorem jobSafe_exec (hs : SchedInv s) (h : JobSafe s) {op : Op n} (hreg : Regular s op)
    (hop : Undisturbed s op) : JobSafe (s.exec op) := by
  have heffect := exec_effect s op
  generalize s.exec op = t at heffect ⊢
  cases heffect with
  | client _ hcall =>
    refine h.mono (fun d pid taskId hjob => ?_) fun th hth d pid taskId hfree => ?_
    · rwa [JobOn, hcall.sched] at hjob
    · rw [hcall.table] at hfree
      rcases hcall.threads with heq | ⟨d', taskId', bound, heq⟩
      · exact Or.inl ⟨th, heq ▸ hth, hfree⟩
      · rw [heq] at hth
        rcases List.mem_cons.mp hth with rfl | hth
        · exact absurd hfree id
        · exact Or.inl ⟨th, hth, hfree⟩
  | added env r d => exact jobSafe_added h hop
  | finished env d response => exact jobSafe_finished hs h hreg hop
  | disconnected pid =>
    intro th hth d pid' taskId hfree
    rcases List.mem_append.mp hth with hnew | hold
    · cases hdevices : List.finRange n with
      | nil => simp [hdevices, deInitAll] at hnew
      | cons first rest =>
        simp only [hdevices, deInitAll, Option.toList_some, List.mem_singleton] at hnew
        subst hnew
        exact absurd hfree.2.2 id
    · exact h th hold d pid' taskId hfree
  | moved order ret hth => exact jobSafe_moved h hth hop
  | idle => exact h

/-! ### Runs -/

structure SafeInv (s : Service p n) : Prop where
  sched : SchedInv s
  safe : JobSafe s

/-- A step that is regular for the scheduler and undisturbed. -/
def Orderly (s : Service p n) (op : Op n) : Prop := Regular s op ∧ Undisturbed s op

theorem safeInv_step (s t : Service p n) (hst : Step Orderly s t) (h : SafeInv s) : SafeInv t := by
  obtain ⟨op, ⟨hreg, hop⟩, rfl⟩ := hst
  exact ⟨schedInv_exec h.sched hreg, jobSafe_exec h.sched h.safe hreg hop⟩

/-- In every orderly run, no memory is deallocated by a disconnect or by `onTaskDrained` while the
    device works on a job of its task. -/
theorem no_free_under_job {memAddr memSize : Fin n → ℕ}
    (hrun : Relation.ReflTransGen (Step Orderly) (init p memAddr memSize) s) :
    ¬ FreesUnderJob s := by
  have hinit : SafeInv (init p memAddr memSize) :=
    ⟨schedInv_init p memAddr memSize, fun th hth => absurd hth List.not_mem_nil⟩
  exact (Run.invariant safeInv_step hrun hinit).safe.not_freesUnderJob

instance (s : Service p n) (d : Fin n) : Decidable (Unthreatened s d) :=
  inferInstanceAs (Decidable (∀ k ∈ s.sched.queued d, ∀ e ∈ s.sched.entry k, ∀ th ∈ s.threads,
    ¬ th.mayFree s.pendingTaskFree d k.1 e.data.taskId))

instance (s : Service p n) : ∀ op, Decidable (Undisturbed s op)
  | .addScheduler _ r d => inferInstanceAs (Decidable (Unthreatened s d ∧
      ∀ th ∈ s.threads, ¬ th.mayFree s.pendingTaskFree d r.procId r.taskId))
  | .finishJobs _ d _ => inferInstanceAs (Decidable (Unthreatened s d))
  | .advance th _ _ =>
    match th with
    | .deInit pid d _ phase =>
      match phase with
      | .readRunning => inferInstanceAs (Decidable (∀ job ∈ inFlight d s.sched.log,
          job.1.1 = pid → job.2 ∈ s.sched.getRunningTaskIds pid))
      | .deferFree running => inferInstanceAs (Decidable (∀ taskId ∈ running,
          .onTaskDrained pid taskId ∈ s.threads → ¬ JobOn s d pid taskId))
      | .stopAll _ | .extract _ | .stopTasks .. | .free .. | .deleteBound .. => isTrue trivial
    | .taskDeInit .. | .deleteBound .. | .onTaskDrained .. | .freeing .. => isTrue trivial
  | .handleAllocate .. | .handleDeallocate .. | .taskInit .. | .taskDeInit ..
  | .onClientDisconnected .. => isTrue trivial

instance (s : Service p n) (op : Op n) : Decidable (Orderly s op) :=
  inferInstanceAs (Decidable (_ ∧ _))

/-- `HandleProcessDeInit(1, d)` goes through the given phases. -/
def deInitPhases (d : Fin n) (rest : List (Fin n)) (phases : List Phase) : List (Op n) :=
  phases.map fun phase => .advance (.deInit 1 d rest phase) [] 0

/-- A disconnect of process 1 with a running task, its answer and the drain notice. -/
def drainedRun : List (Op 1) :=
  startTask 0 ++ [.onClientDisconnected 1] ++
    deInitPhases 0 [] [.readRunning, .deferFree [5], .stopAll [5], .extract [5],
      .stopTasks [5] [(5, .normal)] [(5, .normal)], .stopTasks [5] [] [(5, .normal)],
      .free [5] [(5, .normal)], .deleteBound [5] .normal [], .free [5] []] ++
    [.finishJobs Scheduler.accepting 0 ⟨1, 7, 5, 0⟩, .advance (.onTaskDrained 1 5) [] 0]

/-- On one device the memory of a running task is freed after the answer. -/
theorem no_free_under_job_drained : ∃ s : Service .fifo 1,
    Relation.ReflTransGen (Step Orderly) (init .fifo (fun _ => 0) fun _ => 16384) s ∧
      s.threads = [.freeing 1 5 0] ∧ (s.mem 0).Owns (.task 1 5) 0 ∧ ¬ FreesUnderJob s := by
  have hrun : Relation.ReflTransGen (Step Orderly)
      (init .fifo (fun _ : Fin 1 => 0) fun _ => 16384)
      ((init .fifo (fun _ => 0) fun _ => 16384).run drainedRun) :=
    Allowed.reachable (by decide +kernel)
  exact ⟨_, hrun, by decide +kernel, by decide +kernel, no_free_under_job hrun⟩

/-- A disconnect of process 1 whose task runs on the second of two devices. -/
def twoDeviceRun : List (Op 2) :=
  startTask 1 ++ [.onClientDisconnected 1] ++
    deInitPhases 0 [1] [.readRunning, .deferFree [5], .stopAll [5], .extract [5],
      .stopTasks [5] [] [], .free [5] []] ++
    deInitPhases 1 [] [.readRunning, .deferFree [], .stopAll [], .extract [],
      .stopTasks [] [(5, .normal)] [(5, .normal)], .stopTasks [] [] [(5, .normal)]]

/-- At device 0 the disconnect reads the running tasks of all devices and cancels the job; at
    device 1 nothing is running any more, and the memory is freed while the device works on it. -/
theorem no_free_under_job_two_devices : ∃ s : Service .fifo 2,
    Relation.ReflTransGen (Step Regular) (init .fifo (fun _ => 0) fun _ => 16384) s ∧
      FreesUnderJob s := by
  have hrun : Relation.ReflTransGen (Step Regular)
      (init .fifo (fun _ : Fin 2 => 0) fun _ => 16384)
      ((init .fifo (fun _ => 0) fun _ => 16384).run twoDeviceRun) :=
    Allowed.reachable (by decide +kernel)
  exact ⟨_, hrun, .deInit 1 1 [] (.free [] [(5, .normal)]), by decide +kernel, 1, 1, 5, rfl,
    ⟨0, by decide +kernel⟩, by decide +kernel⟩

end Service
end DxRt
