import DxRt.Memory.Ownership
import DxRt.Scheduler.Flight
import DxRt.Service.Handlers

/-! What the steps of the service do, said once.

    A request of a client touches what belongs to that client (`ClientCall`). A thread only stops
    requests, and it frees memory in the two places that `Thread.frees` names. Together with the
    calls of `AddScheduler` and `FinishJobs` this is all that can happen to the scheduler. -/

namespace DxRt

/-- The memory that the next step of a thread deallocates: device, process and task. -/
def Thread.frees {n : ℕ} : Thread n → Option (Fin n × ℤ × ℤ)
  | .deInit pid d _ (.free running (entry :: _)) =>
    if entry.1 ∈ running then none else some (d, pid, entry.1)
  | .freeing pid taskId d => some (d, pid, taskId)
  | _ => none

namespace Service
open MemoryService (Owner)
variable {p : Policy} {n : ℕ} {s t : Service p n}

/-! ### Requests of a client -/

structure ClientCall (pid : ℤ) (s t : Service p n) : Prop where
  sched : t.sched = s.sched
  table : t.pendingTaskFree = s.pendingTaskFree
  threads : t.threads = s.threads ∨
    ∃ d taskId bound, t.threads = .taskDeInit pid d taskId bound :: s.threads
  records : ∀ d o a, o.pid ≠ pid → (t.mem d).Owns o a → (s.mem d).Owns o a
  tasks : ∀ q d, q ≠ pid → t.tasks.tasksOf q d = s.tasks.tasksOf q d

theorem ClientCall.refl (pid : ℤ) (s : Service p n) : ClientCall pid s s :=
  ⟨rfl, rfl, Or.inl rfl, fun _ _ _ _ ho => ho, fun _ _ _ => rfl⟩

/-- New contents for one device, with no new record of another process. -/
theorem ClientCall.setMem {pid : ℤ} {d : Fin n} {m : MemoryService} (h : ClientCall pid s t)
    (hm : ∀ o a, o.pid ≠ pid → m.Owns o a → (t.mem d).Owns o a) :
    ClientCall pid s (t.setMem d m) := by
  refine ⟨h.sched, h.table, h.threads, fun d' o a ho hown => ?_, h.tasks⟩
  simp only [Service.setMem, Function.update_apply] at hown
  split_ifs at hown with hd
  · subst hd
    exact h.records _ o a ho (hm o a ho hown)
  · exact h.records d' o a ho hown

theorem ClientCall.setBounds {pid : ℤ} {d : Fin n} {m : BoundManager} (h : ClientCall pid s t) :
    ClientCall pid s (t.setBounds d m) :=
  ⟨h.sched, h.table, h.threads, h.records, h.tasks⟩

theorem ClientCall.setHandles {pid : ℤ} {handles : HandleTable} (h : ClientCall pid s t) :
    ClientCall pid s { t with handles := handles } :=
  ⟨h.sched, h.table, h.threads, h.records, h.tasks⟩

theorem ClientCall.setTasks {pid : ℤ} {tasks : TaskInfoStore n} (h : ClientCall pid s t)
    (htasks : ∀ q d, q ≠ pid → tasks.tasksOf q d = t.tasks.tasksOf q d) :
    ClientCall pid s { t with tasks := tasks } :=
  ⟨h.sched, h.table, h.threads, h.records, fun q d hq => (htasks q d hq).trans (h.tasks q d hq)⟩

theorem owns_of_allocateFor {mem : MemoryService} {size : ℕ} {pid taskId : ℤ} {forModel : Bool}
    {o : Owner} {a : ℕ} (ho : o.pid ≠ pid)
    (h : (allocateFor mem size pid taskId forModel).1.Owns o a) : mem.Owns o a := by
  have htask : o ≠ .task pid taskId := by rintro rfl; exact ho rfl
  have hlegacy : o ≠ .legacy pid := by rintro rfl; exact ho rfl
  rw [allocateFor] at h
  split_ifs at h
  · exact (MemoryService.owns_of_allocateWith (fun s a o' a' =>
      MemoryService.owns_trackTask s pid taskId a o' a') h).resolve_right htask
  · exact (MemoryService.owns_of_allocateWith (fun s a o' a' =>
      MemoryService.owns_trackTask s pid taskId a o' a') h).resolve_right htask
  · exact (MemoryService.owns_of_allocateWith (fun s a o' a' =>
      MemoryService.owns_trackLegacy s pid a o' a') h).resolve_right hlegacy
  · exact (MemoryService.owns_of_allocateWith (fun s a o' a' =>
      MemoryService.owns_trackLegacy s pid a o' a') h).resolve_right hlegacy

theorem handleAllocate_client (s : Service p n) (pid : ℤ) (d : Fin n) (taskId : ℤ) (size : ℕ)
    (forModel : Bool) (shm : Except ℤ SharedMemoryInfo) :
    ClientCall pid s (s.handleAllocate pid d taskId size forModel shm).1 := by
  have hset : ClientCall pid s
      (s.setMem d (allocateFor (s.mem d) size pid taskId forModel).1) :=
    (ClientCall.refl pid s).setMem fun o a ho hown => owns_of_allocateFor ho hown
  simp only [handleAllocate]
  split_ifs
  · exact hset
  · cases shm with
    | error code =>
      exact (ClientCall.refl pid s).setMem fun o a ho hown =>
        owns_of_allocateFor ho (MemoryService.owns_of_deallocateAddress hown)
    | ok info => exact hset.setHandles

theorem handleDeallocate_client (s : Service p n) (pid : ℤ) (d : Fin n) (address : ℕ) :
    ClientCall pid s (s.handleDeallocate pid d address).1 := by
  rw [handleDeallocate]
  split
  · exact ((ClientCall.refl pid s).setMem fun o a _ hown =>
      MemoryService.owns_of_deallocateAddress hown).setHandles
  · exact (ClientCall.refl pid s).setMem fun o a _ hown =>
      MemoryService.owns_of_deallocateAddress hown

theorem tasksOf_insert (store : TaskInfoStore n) (pid : ℤ) (d : Fin n)
    (tasks : SortedMap ℤ NpuBoundOp) (q : ℤ) (d' : Fin n) :
    TaskInfoStore.tasksOf (store.insert (toLex (pid, d)) tasks) q d' =
      if q = pid ∧ d' = d then tasks else store.tasksOf q d' := by
  simp only [TaskInfoStore.tasksOf, SortedMap.find?_insert, toLex_inj, Prod.mk.injEq]
  split_ifs <;> rfl

theorem tasksOf_erase (store : TaskInfoStore n) (pid : ℤ) (d : Fin n) (q : ℤ) (d' : Fin n) :
    TaskInfoStore.tasksOf (store.erase (toLex (pid, d))) q d' =
      if q = pid ∧ d' = d then .empty else store.tasksOf q d' := by
  simp only [TaskInfoStore.tasksOf, SortedMap.find?_erase, toLex_inj, Prod.mk.injEq]
  split_ifs <;> rfl

theorem tasksOf_addTask (store : TaskInfoStore n) {pid : ℤ} (d : Fin n) (taskId : ℤ)
    (bound : NpuBoundOp) {q : ℤ} (hq : q ≠ pid) (d' : Fin n) :
    (store.addTask pid d taskId bound).1.tasksOf q d' = store.tasksOf q d' := by
  rw [TaskInfoStore.addTask]
  split_ifs
  · rfl
  · exact (tasksOf_insert store pid d _ q d').trans (if_neg fun h => hq h.1)

theorem tasksOf_removeTask (store : TaskInfoStore n) {pid : ℤ} (d : Fin n) (taskId : ℤ) {q : ℤ}
    (hq : q ≠ pid) (d' : Fin n) :
    (store.removeTask pid d taskId).1.tasksOf q d' = store.tasksOf q d' := by
  rw [TaskInfoStore.removeTask]
  split
  · rfl
  · dsimp only
    split_ifs
    · exact (tasksOf_erase store pid d q d').trans (if_neg fun h => hq h.1)
    · exact (tasksOf_insert store pid d _ q d').trans (if_neg fun h => hq h.1)

theorem makeRoom_client (s : Service p n) (pid : ℤ) (d : Fin n) (modelMemorySize : ℕ) :
    ClientCall pid s (s.makeRoom d modelMemorySize) := by
  rw [makeRoom]
  split_ifs
  · exact ClientCall.refl pid s
  · exact (ClientCall.refl pid s).setMem fun o a _ hown =>
      MemoryService.owns_optimizeMemory.mp hown

theorem taskInit_client (s : Service p n) (pid : ℤ) (d : Fin n) (taskId : ℤ) (bound : NpuBoundOp)
    (modelMemorySize : ℕ) (isBlocked : Bool) (ret : ℤ) :
    ClientCall pid s (s.taskInit pid d taskId bound modelMemorySize isBlocked ret).1 := by
  have hroom := makeRoom_client s pid d modelMemorySize
  rw [taskInit]
  generalize s.makeRoom d modelMemorySize = s₁ at hroom ⊢
  dsimp only
  split_ifs
  · exact hroom
  · exact hroom
  · exact hroom
  · split
    · rename_i tasks heq
      have hcall : ClientCall pid s (s₁.setBounds d ((s₁.bounds d).addBound bound ret).1) :=
        hroom.setBounds
      refine hcall.setTasks fun q d' hq => ?_
      have hother := tasksOf_addTask (s₁.setBounds d ((s₁.bounds d).addBound bound ret).1).tasks d
        taskId bound hq d'
      rw [heq] at hother
      exact hother
    · exact hroom.setBounds.setBounds
  · exact hroom

theorem taskDeInit_client (s : Service p n) (pid : ℤ) (d : Fin n) (taskId : ℤ) :
    ClientCall pid s (s.taskDeInit pid d taskId) := by
  rw [taskDeInit]
  split
  · exact ClientCall.refl pid s
  · rename_i tasks bound heq
    refine ⟨rfl, rfl, Or.inr ⟨d, taskId, bound, rfl⟩, fun _ _ _ _ ho => ho, fun q d' hq => ?_⟩
    have hother := tasksOf_removeTask s.tasks d taskId hq d'
    rwa [heq] at hother

/-! ### Threads -/

/-- All that a thread does to the scheduler is to stop requests. -/
theorem threadStep_stopped (s : Service p n) (order : TaskEntries) (ret : ℤ) (th : Thread n) :
    Scheduler.Stopped s.sched (s.threadStep order ret th).1.sched := by
  cases th with
  | deInit pid d rest phase =>
    cases phase with
    | readRunning | deferFree | extract | deleteBound => exact .refl _
    | stopAll => exact Scheduler.stopAll_stopped s.sched pid d
    | stopTasks running todo taskEntries =>
      cases todo with
      | nil => exact Scheduler.clearRunningRequests_stopped s.sched pid d
      | cons entry todo => exact Scheduler.stopTaskInference_stopped s.sched pid d entry.1
    | free running taskEntries =>
      cases taskEntries with
      | nil => exact .refl _
      | cons entry taskEntries =>
        simp only [threadStep, deInitStep]
        split_ifs <;> exact .refl _
  | taskDeInit pid d taskId bound =>
    exact Scheduler.stopTaskInference_stopped s.sched pid d taskId
  | deleteBound | freeing => exact .refl _
  | onTaskDrained pid taskId =>
    simp only [threadStep]
    split <;> exact .refl _

/-- A thread deallocates what `Thread.frees` says, and nothing else. -/
theorem threadStep_mem (s : Service p n) (order : TaskEntries) (ret : ℤ) (th : Thread n) :
    (s.threadStep order ret th).1.mem = match th.frees with
      | none => s.mem
      | some (d, pid, taskId) =>
        Function.update s.mem d ((s.mem d).deallocateTask pid taskId).1 := by
  cases th with
  | deInit pid d rest phase =>
    cases phase with
    | readRunning | deferFree | extract | deleteBound | stopAll => rfl
    | stopTasks running todo taskEntries => cases todo <;> rfl
    | free running taskEntries =>
      cases taskEntries with
      | nil => rfl
      | cons entry taskEntries =>
        simp only [threadStep, deInitStep, Thread.frees]
        split_ifs <;> rfl
  | taskDeInit | deleteBound | freeing => rfl
  | onTaskDrained pid taskId =>
    simp only [threadStep]
    split <;> rfl

theorem find?_deferFree (pid : ℤ) (d : Fin n) (running : List ℤ) (q taskId : ℤ) :
    ∀ table : SortedMap (ℤ ×ₗ ℤ) (Fin n),
      (deferFree pid d running table).find? (toLex (q, taskId)) =
        if q = pid ∧ taskId ∈ running then some d else table.find? (toLex (q, taskId)) := by
  induction running with
  | nil => simp [deferFree]
  | cons first running ih =>
    intro table
    refine (ih _).trans ?_
    simp only [SortedMap.find?_insert, toLex_inj, Prod.mk.injEq, List.mem_cons]
    grind

/-! ### All steps -/

/-- The client whose request a step is. -/
def Op.client : Op n → Option ℤ
  | .handleAllocate pid .. | .handleDeallocate pid .. | .taskInit pid .. | .taskDeInit pid .. =>
    some pid
  | _ => none

inductive Effect (s : Service p n) : Op n → Service p n → Prop where
  | client {op : Op n} {pid : ℤ} {t : Service p n} (hpid : op.client = some pid)
      (hcall : ClientCall pid s t) : Effect s op t
  | added (env : Env) (r : Request) (d : Fin n) :
      Effect s (.addScheduler env r d) (s.addScheduler env r d)
  | finished (env : Env) (d : Fin n) (response : Response) :
      Effect s (.finishJobs env d response) (s.finishJobs env d response)
  | disconnected (pid : ℤ) : Effect s (.onClientDisconnected pid) (s.onClientDisconnected pid)
  | moved {th : Thread n} (order : TaskEntries) (ret : ℤ) (hth : th ∈ s.threads) :
      Effect s (.advance th order ret) { (s.threadStep order ret th).1 with
        threads := (s.threadStep order ret th).2.toList ++ s.threads.erase th }
  | idle {th : Thread n} (order : TaskEntries) (ret : ℤ) (hth : th ∉ s.threads) :
      Effect s (.advance th order ret) s

theorem exec_effect (s : Service p n) (op : Op n) : Effect s op (s.exec op) := by
  cases op with
  | handleAllocate pid d taskId size forModel shm =>
    exact .client rfl (handleAllocate_client s pid d taskId size forModel shm)
  | handleDeallocate pid d address => exact .client rfl (handleDeallocate_client s pid d address)
  | taskInit pid d taskId bound modelMemorySize isBlocked ret =>
    exact .client rfl (taskInit_client s pid d taskId bound modelMemorySize isBlocked ret)
  | taskDeInit pid d taskId => exact .client rfl (taskDeInit_client s pid d taskId)
  | addScheduler env r d => exact .added env r d
  | finishJobs env d response => exact .finished env d response
  | onClientDisconnected pid => exact .disconnected pid
  | advance th order ret =>
    change Effect s _ (s.advance th order ret)
    rw [advance]
    split_ifs with hth
    · exact .moved order ret hth
    · exact .idle order ret hth

/-! ### Runs given by a list -/

def run (s : Service p n) (ops : List (Op n)) : Service p n := ops.foldl exec s

/-- Every step of the list is allowed when its turn comes. -/
def Allowed (ok : Service p n → Op n → Prop) : Service p n → List (Op n) → Prop
  | _, [] => True
  | s, op :: ops => ok s op ∧ Allowed ok (s.exec op) ops

instance decidableAllowed (ok : Service p n → Op n → Prop) [∀ s op, Decidable (ok s op)] :
    ∀ (s : Service p n) (ops : List (Op n)), Decidable (Allowed ok s ops)
  | _, [] => isTrue trivial
  | s, op :: ops =>
    have := decidableAllowed ok (s.exec op) ops
    inferInstanceAs (Decidable (ok s op ∧ Allowed ok (s.exec op) ops))

theorem Allowed.reachable {ok : Service p n → Op n → Prop} {ops : List (Op n)}
    (h : Allowed ok s ops) : Relation.ReflTransGen (Step ok) s (s.run ops) := by
  induction ops generalizing s with
  | nil => exact .refl
  | cons op ops ih => exact .head ⟨op, h.1, rfl⟩ (ih h.2)

/-- Process 1 gets memory for task 5 on a device, initialises the task there and has request 7
    accepted. -/
def startTask (d : Fin n) : List (Op n) :=
  [.handleAllocate 1 d 5 4096 false (.ok ⟨1, 4096, 2 ^ 30, 0, 0, 3⟩),
    .taskInit 1 d 5 .normal 4096 false 0, .addScheduler Scheduler.accepting ⟨1, 7, 5⟩ d]

/-! ### The scheduler below -/

/-- The calls of the scheduler keep to fresh keys and to answers of accepted submissions. -/
def Regular (s : Service p n) : Op n → Prop
  | .addScheduler env r d => s.sched.Regular (.addScheduler env r d)
  | .finishJobs env d response => s.sched.Regular (.finishJobs env d response)
  | _ => True

instance (s : Service p n) : ∀ op, Decidable (Regular s op)
  | .addScheduler env r d => inferInstanceAs (Decidable (s.sched.Regular (.addScheduler env r d)))
  | .finishJobs env d response =>
    inferInstanceAs (Decidable (s.sched.Regular (.finishJobs env d response)))
  | .handleAllocate .. | .handleDeallocate .. | .taskInit .. | .taskDeInit ..
  | .onClientDisconnected .. | .advance .. => isTrue trivial

/-- Device `d` has accepted a submission of the task and has not answered it. -/
def JobOn (s : Service p n) (d : Fin n) (pid taskId : ℤ) : Prop :=
  ∃ job ∈ Scheduler.inFlight d s.sched.log, job.1.1 = pid ∧ job.2 = taskId

instance (s : Service p n) (d : Fin n) (pid taskId : ℤ) : Decidable (JobOn s d pid taskId) :=
  inferInstanceAs (Decidable (∃ job ∈ _, _))

/-- What the scheduler keeps in every run of regular calls. -/
structure SchedInv (s : Service p n) : Prop where
  submit : s.sched.SubmitInv
  flight : s.sched.FlightInv

theorem SchedInv.congr (h : SchedInv s) (heq : t.sched = s.sched) : SchedInv t :=
  ⟨heq ▸ h.submit, heq ▸ h.flight⟩

theorem schedInv_exec (h : SchedInv s) {op : Op n} (hop : Regular s op) : SchedInv (s.exec op) := by
  have heffect := exec_effect s op
  generalize s.exec op = t at heffect ⊢
  cases heffect with
  | client _ hcall => exact h.congr hcall.sched
  | added env r d =>
    have hreg : s.sched.Regular (.addScheduler env r d) := hop
    exact ⟨(Scheduler.submitInv_exec h.submit hreg.1).1,
      Scheduler.flightInv_exec h.submit h.flight hreg⟩
  | finished env d response =>
    have hreg : s.sched.Regular (.finishJobs env d response) := hop
    exact ⟨(Scheduler.submitInv_exec h.submit hreg.1).1,
      Scheduler.flightInv_exec h.submit h.flight hreg⟩
  | disconnected pid => exact h.congr rfl
  | @moved th order ret hth =>
    have hstop := threadStep_stopped s order ret th
    exact ⟨h.submit.stopped hstop, h.flight.stopped hstop⟩
  | idle => exact h

/-- The tasks that devices work on are those of the requests that are running or cancelled. -/
theorem SchedInv.jobOn_iff (h : SchedInv s) {pid taskId : ℤ} :
    (∃ d, JobOn s d pid taskId) ↔ ∃ req e, s.sched.entry (pid, req) = some e ∧
      e.state ≠ .pending ∧ e.data.taskId = taskId := by
  constructor
  · rintro ⟨d, ⟨⟨q, req⟩, taskId'⟩, hmem, rfl, rfl⟩
    obtain ⟨e, he, hwork⟩ := Option.bind_eq_some_iff.mp ((h.flight.flying _ _ _).mp hmem)
    split_ifs at hwork with hst
    exact ⟨req, e, he, hst, (Prod.mk.inj (Option.some.inj hwork)).2⟩
  · rintro ⟨req, e, he, hst, rfl⟩
    have hwork := (Scheduler.work_of_entry he).trans (if_neg hst)
    cases hd : e.deviceId with
    | none =>
      rw [hd] at hwork
      exact absurd hwork (h.flight.placed _ _)
    | some d =>
      rw [hd] at hwork
      exact ⟨d, _, (h.flight.flying _ _ _).mpr hwork, rfl, rfl⟩

theorem schedInv_init (p : Policy) (memAddr memSize : Fin n → ℕ) :
    SchedInv (init p memAddr memSize) :=
  ⟨Scheduler.submitInv_init p n, Scheduler.flightInv_init p n⟩

end Service
end DxRt
