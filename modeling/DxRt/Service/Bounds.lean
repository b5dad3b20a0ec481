import DxRt.Service.Spec

/-! Bounds: the counters of a device and the tasks in the store.

    A bound is counted when its task is initialised, before the task is entered into the store, and
    released after the task has been taken out. So the counter of a bound is the number of stored
    tasks with that bound, plus what the calls in progress have still to release. The calls here may
    be interleaved with each other and with everything else the service does; the driver accepts
    every bound. -/

namespace DxRt

namespace TaskInfoStore
variable {n : ℕ}

/-- How many tasks of one process use a bound. -/
def countIn (tasks : SortedMap ℤ NpuBoundOp) (bound : NpuBoundOp) : ℕ :=
  tasks.total fun task => if task.2 = bound then 1 else 0

/-- How many tasks on a device use a bound. -/
def count (store : TaskInfoStore n) (d : Fin n) (bound : NpuBoundOp) : ℕ :=
  store.total fun entry => if (ofLex entry.1).2 = d then countIn entry.2 bound else 0

theorem count_insert (store : TaskInfoStore n) (pid : ℤ) (d : Fin n)
    (tasks : SortedMap ℤ NpuBoundOp) (d' : Fin n) (bound : NpuBoundOp) :
    TaskInfoStore.count (store.insert (toLex (pid, d)) tasks) d' bound =
      (if d = d' then countIn tasks bound else 0) +
        TaskInfoStore.count (store.erase (toLex (pid, d))) d' bound :=
  store.total_insert (toLex (pid, d)) tasks _

theorem count_eq_add_erase (store : TaskInfoStore n) (pid : ℤ) (d d' : Fin n) (bound : NpuBoundOp) :
    store.count d' bound = (if d = d' then countIn (store.tasksOf pid d) bound else 0) +
      TaskInfoStore.count (store.erase (toLex (pid, d))) d' bound :=
  store.total_eq_add_erase (toLex (pid, d)) (ite_self 0)

theorem countIn_insert {tasks : SortedMap ℤ NpuBoundOp} {taskId : ℤ}
    (hnew : tasks.find? taskId = none) (bound bound' : NpuBoundOp) :
    countIn (tasks.insert taskId bound) bound' =
      (if bound = bound' then 1 else 0) + countIn tasks bound' := by
  rw [countIn, SortedMap.total_insert, SortedMap.erase_of_find?_none hnew, countIn]

theorem countIn_erase {tasks : SortedMap ℤ NpuBoundOp} {taskId : ℤ} {bound : NpuBoundOp}
    (hfind : tasks.find? taskId = some bound) (bound' : NpuBoundOp) :
    countIn tasks bound' =
      (if bound = bound' then 1 else 0) + countIn (tasks.erase taskId) bound' := by
  rw [countIn, SortedMap.total, ((SortedMap.find?_perm hfind).map _).sum_eq, List.map_cons,
    List.sum_cons]
  rfl

/-- A new task adds one to the count of its bound. -/
theorem count_addTask (store : TaskInfoStore n) {pid : ℤ} {d : Fin n} {taskId : ℤ}
    (hnew : store.hasTask pid d taskId = false) (bound : NpuBoundOp) (d' : Fin n)
    (bound' : NpuBoundOp) :
    (store.addTask pid d taskId bound).1.count d' bound' =
      store.count d' bound' + if d = d' ∧ bound = bound' then 1 else 0 := by
  have hnone : (store.tasksOf pid d).find? taskId = none := by
    rw [hasTask, SortedMap.contains] at hnew
    exact Option.isSome_eq_false_iff.mp hnew |> Option.isNone_iff_eq_none.mp
  rw [addTask, if_neg (by simp [hnew]), count_insert, store.count_eq_add_erase pid d,
    countIn_insert hnone]
  split_ifs <;> simp_all
  omega

/-- A removed task takes one off. -/
theorem count_removeTask (store : TaskInfoStore n) {pid : ℤ} {d : Fin n} {taskId : ℤ}
    {bound : NpuBoundOp} (hfind : (store.tasksOf pid d).find? taskId = some bound) (d' : Fin n)
    (bound' : NpuBoundOp) :
    store.count d' bound' = (store.removeTask pid d taskId).1.count d' bound' +
      if d = d' ∧ bound = bound' then 1 else 0 := by
  have hcount : (store.removeTask pid d taskId).1.count d' bound' =
      (if d = d' then countIn ((store.tasksOf pid d).erase taskId) bound' else 0) +
        TaskInfoStore.count (store.erase (toLex (pid, d))) d' bound' := by
    rw [removeTask, hfind]
    dsimp only
    split_ifs with hempty
    · have hzero : countIn ((store.tasksOf pid d).erase taskId) bound' = 0 := by
        rw [countIn, SortedMap.total, List.isEmpty_iff.mp hempty]
        rfl
      rw [hzero, Nat.zero_add]
    · exact Nat.zero_add _ |>.symm
    · rw [count_insert, if_pos ‹_›]
    · rw [count_insert, if_neg ‹_›]
  rw [hcount, store.count_eq_add_erase pid d, countIn_erase hfind]
  split_ifs <;> simp_all
  omega

/-- How many of the extracted entries use a bound. -/
def countEntries (entries : TaskEntries) (bound : NpuBoundOp) : ℕ :=
  (entries.map fun task => if task.2 = bound then 1 else 0).sum

/-- Extraction takes off what it returns. -/
theorem count_extract (store : TaskInfoStore n) (pid : ℤ) (d : Fin n) (order : TaskEntries)
    (d' : Fin n) (bound : NpuBoundOp) :
    store.count d' bound = (store.extractTaskIdsWithBound pid d order).1.count d' bound +
      if d = d' then countEntries (store.extractTaskIdsWithBound pid d order).2 bound else 0 := by
  rw [store.count_eq_add_erase pid d, extractTaskIdsWithBound, tasksOf, Nat.add_comm]
  cases hfind : store.find? (toLex (pid, d)) with
  | none => simp [SortedMap.erase_of_find?_none hfind, countEntries, countIn, SortedMap.total,
      SortedMap.empty]
  | some tasks =>
    have hentries : countEntries (if order.isPerm tasks.entries then order else tasks.entries)
        bound = countIn tasks bound := by
      split_ifs with hperm
      · exact ((List.isPerm_iff.mp hperm).map _).sum_eq
      · rfl
    simp only [Option.getD_some, hentries]

end TaskInfoStore

namespace BoundManager

theorem boundCount_count (m : BoundManager) (bound : NpuBoundOp) (i : ℤ) (bound' : NpuBoundOp) :
    (m.count bound i).boundCount bound' =
      m.boundCount bound' + if bound = bound' then i else 0 := by
  by_cases h : bound = bound'
  · subst h
    simp [count]
  · simp [count, Function.update_of_ne (Ne.symm h), h]

/-- A driver that accepts every bound: one more is counted. -/
theorem addBound_accepted (m : BoundManager) (bound : NpuBoundOp) :
    m.addBound bound 0 = (m.count bound 1, 0) := by
  rw [addBound, if_pos rfl, ite_self]

theorem deleteBound_accepted (m : BoundManager) (bound : NpuBoundOp) :
    (m.deleteBound bound 0).1 = m.count bound (-1) := by
  rw [deleteBound, if_pos rfl, ite_self]

theorem count_count (m : BoundManager) (bound : NpuBoundOp) :
    (m.count bound 1).count bound (-1) = m := by
  simp [count]

/-- Predicates that agree except at one place. -/
theorem countP_le_succ {α : Type*} [DecidableEq α] {f g : α → Bool} {a : α}
    (h : ∀ x, f x = true → g x = true ∨ x = a) :
    ∀ l : List α, l.countP f ≤ l.countP g + l.count a := by
  intro l
  induction l with
  | nil => simp
  | cons x l ih =>
    simp only [List.countP_cons, List.count_cons]
    by_cases hf : f x = true
    · rcases h x hf with hg | rfl
      · simp only [hf, hg, if_true]
        omega
      · simp only [hf, beq_self_eq_true, if_true]
        omega
    · simp only [hf, Bool.false_eq_true, if_false]
      omega

/-- An accepted bound is in use already or is the third one at most. -/
theorem typeCount_add {m : BoundManager} {bound : NpuBoundOp} (h : m.getBoundTypeCount ≤ 3)
    (haccept : m.canAcceptBound bound = true) : (m.count bound 1).getBoundTypeCount ≤ 3 := by
  have hcount := m.boundCount_count bound 1
  rw [canAcceptBound, Bool.or_eq_true, decide_eq_true_eq, decide_eq_true_eq] at haccept
  rcases haccept with hpos | hroom
  · refine le_trans (List.countP_mono_left fun bound' _ hf => ?_) h
    rw [decide_eq_true_eq, hcount] at hf
    rw [decide_eq_true_eq]
    split_ifs at hf with heq
    · exact heq ▸ hpos
    · omega
  · have hone : NpuBoundOp.all.count bound = 1 := by cases bound <;> rfl
    have hle : (m.count bound 1).getBoundTypeCount ≤ m.getBoundTypeCount +
        NpuBoundOp.all.count bound := by
      refine countP_le_succ (fun bound' hf => ?_) _
      rw [decide_eq_true_eq, hcount] at hf
      rw [decide_eq_true_eq]
      split_ifs at hf with heq
      · exact Or.inr heq.symm
      · exact Or.inl (by omega)
    omega

theorem typeCount_delete (m : BoundManager) (bound : NpuBoundOp) :
    (m.count bound (-1)).getBoundTypeCount ≤ m.getBoundTypeCount := by
  refine List.countP_mono_left fun bound' _ hf => ?_
  rw [decide_eq_true_eq, boundCount_count] at hf
  rw [decide_eq_true_eq]
  split_ifs at hf <;> omega

end BoundManager

/-! ### Calls in progress -/

/-- The entries whose bound a call of `HandleProcessDeInit` has still to release. -/
def Phase.entries : Phase → TaskEntries
  | .stopTasks _ _ taskEntries | .free _ taskEntries => taskEntries
  | .deleteBound _ bound taskEntries => (0, bound) :: taskEntries
  | .readRunning | .deferFree _ | .stopAll _ | .extract _ => []

/-- How often a call in progress has still to release a bound. -/
def Thread.owes {n : ℕ} (d : Fin n) (bound : NpuBoundOp) : Thread n → ℕ
  | .deInit _ d' _ phase => if d' = d then TaskInfoStore.countEntries phase.entries bound else 0
  | .taskDeInit _ d' _ bound' | .deleteBound d' bound' =>
    if d' = d ∧ bound' = bound then 1 else 0
  | .onTaskDrained .. | .freeing .. => 0

/-- The thread is a call of `HandleTaskDeInit` or `HandleProcessDeInit`. -/
def Thread.isDeInit {n : ℕ} : Thread n → Bool
  | .deInit .. | .taskDeInit .. | .deleteBound .. => true
  | .onTaskDrained .. | .freeing .. => false

namespace Service
variable {p : Policy} {n : ℕ} {s t : Service p n}
open TaskInfoStore BoundManager

def owed (s : Service p n) (d : Fin n) (bound : NpuBoundOp) : ℕ :=
  (s.threads.map (Thread.owes d bound)).sum

/-- A process is deinitialised on one device. -/
def handleProcessDeInit (s : Service p n) (pid : ℤ) (d : Fin n) : Service p n :=
  { s with threads := .deInit pid d [] .readRunning :: s.threads }

/-- The driver accepts what it is asked for. -/
def DriverAccepts : Op n → Prop
  | .taskInit _ _ _ _ _ _ ret | .advance _ _ ret => ret = 0
  | _ => True

instance : ∀ op : Op n, Decidable (DriverAccepts op)
  | .taskInit .. | .advance .. => inferInstanceAs (Decidable (_ = _))
  | .handleAllocate .. | .handleDeallocate .. | .taskDeInit .. | .addScheduler ..
  | .finishJobs .. | .onClientDisconnected .. => isTrue trivial

/-- Any step of the service with a driver that accepts, or a call of `HandleProcessDeInit`. -/
def BoundStep (s t : Service p n) : Prop :=
  (∃ op, DriverAccepts op ∧ t = s.exec op) ∨ ∃ pid d, t = s.handleProcessDeInit pid d

/-- The counters are the stored tasks and what is still to be released. -/
structure BoundInv (s : Service p n) : Prop where
  count : ∀ d bound, (s.bounds d).boundCount bound = s.tasks.count d bound + s.owed d bound
  types : ∀ d, (s.bounds d).getBoundTypeCount ≤ 3

theorem BoundInv.congr (h : BoundInv s) (hbounds : t.bounds = s.bounds) (htasks : t.tasks = s.tasks)
    (howed : ∀ d bound, t.owed d bound = s.owed d bound) : BoundInv t :=
  ⟨fun d bound => by rw [hbounds, htasks, howed]; exact h.count d bound,
    fun d => by rw [hbounds]; exact h.types d⟩

theorem bounds_deleteBound (s : Service p n) (d : Fin n) (bound : NpuBoundOp) (d' : Fin n)
    (bound' : NpuBoundOp) :
    ((s.setBounds d ((s.bounds d).deleteBound bound 0).1).bounds d').boundCount bound' =
      (s.bounds d').boundCount bound' - if d = d' ∧ bound = bound' then 1 else 0 := by
  by_cases hd : d = d'
  · subst hd
    simp only [setBounds, Function.update_self, deleteBound_accepted, boundCount_count, true_and]
    split_ifs <;> omega
  · simp only [setBounds, Function.update_of_ne (Ne.symm hd), hd, false_and, if_false, sub_zero]

theorem types_deleteBound (s : Service p n) (d : Fin n) (bound : NpuBoundOp) (d' : Fin n) :
    ((s.setBounds d ((s.bounds d).deleteBound bound 0).1).bounds d').getBoundTypeCount ≤
      (s.bounds d').getBoundTypeCount := by
  by_cases hd : d' = d
  · subst hd
    simp only [setBounds, Function.update_self, deleteBound_accepted]
    exact typeCount_delete _ _
  · simp only [setBounds, Function.update_of_ne hd]
    exact le_rfl

theorem countEntries_cons (entry : ℤ × NpuBoundOp) (entries : TaskEntries) (bound : NpuBoundOp) :
    countEntries (entry :: entries) bound =
      (if entry.2 = bound then 1 else 0) + countEntries entries bound := by
  rw [countEntries, List.map_cons, List.sum_cons, countEntries]

/-- What a call in progress releases or takes out of the store, it owes before or after. -/
structure Settles (s : Service p n) (th : Thread n) (r : Service p n × Option (Thread n)) :
    Prop where
  count : ∀ d bound, (r.1.bounds d).boundCount bound + Thread.owes d bound th +
    s.tasks.count d bound = (s.bounds d).boundCount bound +
      (r.2.toList.map (Thread.owes d bound)).sum + r.1.tasks.count d bound
  types : ∀ d, (r.1.bounds d).getBoundTypeCount ≤ (s.bounds d).getBoundTypeCount

/-- A step that touches neither counters nor store, and owes the same afterwards. -/
theorem Settles.of_eq {th : Thread n} {r : Service p n × Option (Thread n)}
    (hbounds : r.1.bounds = s.bounds) (htasks : r.1.tasks = s.tasks)
    (howes : ∀ d bound, (r.2.toList.map (Thread.owes d bound)).sum = Thread.owes d bound th) :
    Settles s th r :=
  ⟨fun d bound => by rw [hbounds, htasks, howes], fun d => by rw [hbounds]⟩

theorem owes_deInitAll (pid : ℤ) (rest : List (Fin n)) (d : Fin n) (bound : NpuBoundOp) :
    ((deInitAll pid rest).toList.map (Thread.owes d bound)).sum = 0 := by
  cases rest <;> simp [deInitAll, Thread.owes, Phase.entries, countEntries]

theorem threadStep_settles (s : Service p n) (order : TaskEntries) (th : Thread n) :
    Settles s th (s.threadStep order 0 th) := by
  cases th with
  | deInit pid d rest phase =>
    cases phase with
    | readRunning | deferFree | stopAll =>
      refine .of_eq rfl rfl fun d' bound => ?_
      simp [threadStep, deInitStep, Thread.owes, Phase.entries]
    | extract running =>
      refine ⟨fun d' bound => ?_, fun d' => le_rfl⟩
      have hcount := s.tasks.count_extract pid d order d' bound
      simp only [threadStep, deInitStep, Thread.owes, Phase.entries, Option.toList_some,
        List.map_cons, List.map_nil, List.sum_cons, List.sum_nil, countEntries, ite_self,
        Nat.cast_zero, add_zero] at hcount ⊢
      rw [hcount]
      push_cast
      ring
    | stopTasks running todo taskEntries =>
      cases todo with
      | nil | cons =>
        refine .of_eq rfl rfl fun d' bound => ?_
        simp [threadStep, deInitStep, Thread.owes, Phase.entries]
    | free running taskEntries =>
      cases taskEntries with
      | nil =>
        refine .of_eq rfl rfl fun d' bound => ?_
        simp [threadStep, deInitStep, owes_deInitAll, Thread.owes, Phase.entries, countEntries]
      | cons entry taskEntries =>
        refine .of_eq ?_ ?_ fun d' bound => ?_
        · simp only [threadStep, deInitStep]
          split_ifs <;> rfl
        · simp only [threadStep, deInitStep]
          split_ifs <;> rfl
        · simp [threadStep, deInitStep, Thread.owes, Phase.entries, countEntries_cons]
    | deleteBound running bound taskEntries =>
      refine ⟨fun d' bound' => ?_, fun d' => types_deleteBound s d bound d'⟩
      have hbounds := bounds_deleteBound s d bound d' bound'
      simp only [threadStep, deInitStep, Thread.owes, Phase.entries, Option.toList_some,
        List.map_cons, List.map_nil, List.sum_cons, List.sum_nil, Nat.add_zero, countEntries_cons]
      rw [hbounds]
      simp only [setBounds]
      by_cases hd : d = d'
      · simp only [hd, true_and, if_true]
        push_cast
        ring
      · simp only [hd, false_and, if_false]
        ring
  | taskDeInit pid d taskId bound =>
    refine .of_eq rfl rfl fun d' bound' => ?_
    simp [threadStep, Thread.owes]
  | deleteBound d bound =>
    refine ⟨fun d' bound' => ?_, fun d' => types_deleteBound s d bound d'⟩
    have hbounds := bounds_deleteBound s d bound d' bound'
    simp only [threadStep, Thread.owes, Option.toList_none, List.map_nil, List.sum_nil]
    rw [hbounds]
    simp only [setBounds]
    push_cast
    ring
  | onTaskDrained pid taskId =>
    simp only [threadStep]
    split
    · exact .of_eq rfl rfl fun d bound => rfl
    · exact .of_eq rfl rfl fun d bound => rfl
  | freeing pid taskId d => exact .of_eq rfl rfl fun d bound => rfl

/-! ### Initialisation -/

/-- What the memory services do is no matter of the bounds. -/
theorem makeRoom_book (s : Service p n) (d : Fin n) (modelMemorySize : ℕ) :
    (s.makeRoom d modelMemorySize).bounds = s.bounds ∧
      (s.makeRoom d modelMemorySize).tasks = s.tasks ∧
      (s.makeRoom d modelMemorySize).threads = s.threads := by
  rw [makeRoom]
  split_ifs
  · exact ⟨rfl, rfl, rfl⟩
  · exact ⟨rfl, rfl, rfl⟩

/-- A task is initialised with an accepted bound and a new id, or nothing is booked. -/
theorem taskInit_book (s : Service p n) (pid : ℤ) (d : Fin n) (taskId : ℤ) (bound : NpuBoundOp)
    (modelMemorySize : ℕ) (isBlocked : Bool) {r : Service p n × Bool}
    (hr : s.taskInit pid d taskId bound modelMemorySize isBlocked 0 = r) :
    r.1.threads = s.threads ∧
      (r.2 = false ∧ r.1.bounds = s.bounds ∧ r.1.tasks = s.tasks ∨
        r.2 = true ∧ (s.bounds d).canAcceptBound bound = true ∧
          s.tasks.hasTask pid d taskId = false ∧
          r.1.bounds = Function.update s.bounds d ((s.bounds d).count bound 1) ∧
          r.1.tasks = (s.tasks.addTask pid d taskId bound).1) := by
  obtain ⟨hbounds, htasks, hthreads⟩ := makeRoom_book s d modelMemorySize
  rw [← hbounds, ← htasks, ← hthreads]
  subst hr
  rw [taskInit]
  generalize s.makeRoom d modelMemorySize = s₁
  dsimp only
  by_cases hroom : modelMemorySize ≤ (s₁.mem d).freeSize
  case neg =>
    rw [if_pos hroom]
    exact ⟨rfl, Or.inl ⟨rfl, rfl, rfl⟩⟩
  rw [if_neg (not_not_intro hroom)]
  by_cases hblocked : isBlocked = true
  case pos =>
    rw [if_pos hblocked]
    exact ⟨rfl, Or.inl ⟨rfl, rfl, rfl⟩⟩
  rw [if_neg hblocked]
  cases haccept : (s₁.bounds d).canAcceptBound bound with
  | false => exact ⟨rfl, Or.inl ⟨rfl, rfl, rfl⟩⟩
  | true =>
    rw [if_neg (by simp), if_neg (by simp [addBound_accepted])]
    cases hhas : s₁.tasks.hasTask pid d taskId with
    | true =>
      -- the bound that was counted a moment ago is released again
      have hdup : (s₁.setBounds d ((s₁.bounds d).addBound bound 0).1).tasks.addTask pid d taskId
          bound = (s₁.tasks, false) := by
        exact if_pos hhas
      rw [hdup]
      refine ⟨rfl, Or.inl ⟨rfl, ?_, rfl⟩⟩
      simp only [setBounds, Function.update_self, addBound_accepted, deleteBound_accepted,
        count_count, Function.update_idem, Function.update_eq_self]
    | false =>
      have hnew : (s₁.setBounds d ((s₁.bounds d).addBound bound 0).1).tasks.addTask pid d taskId
          bound = ((s₁.tasks.addTask pid d taskId bound).1, true) := by
        simp [setBounds, addTask, hhas]
      rw [hnew]
      refine ⟨rfl, Or.inr ⟨rfl, rfl, rfl, ?_, rfl⟩⟩
      simp only [setBounds, addBound_accepted]

theorem boundInv_taskInit (h : BoundInv s) (pid : ℤ) (d : Fin n) (taskId : ℤ) (bound : NpuBoundOp)
    (modelMemorySize : ℕ) (isBlocked : Bool) :
    BoundInv (s.taskInit pid d taskId bound modelMemorySize isBlocked 0).1 := by
  obtain ⟨hthreads, hbook⟩ := taskInit_book s pid d taskId bound modelMemorySize isBlocked rfl
  generalize (s.taskInit pid d taskId bound modelMemorySize isBlocked 0) = r at hthreads hbook ⊢
  have howed : ∀ d bound, r.1.owed d bound = s.owed d bound := fun d bound => by
    rw [owed, hthreads, owed]
  rcases hbook with ⟨_, hbounds, htasks⟩ | ⟨_, haccept, hnew, hbounds, htasks⟩
  · exact h.congr hbounds htasks howed
  · refine ⟨fun d' bound' => ?_, fun d' => ?_⟩
    · have hcount := h.count d' bound'
      rw [hbounds, htasks, howed, count_addTask s.tasks hnew]
      by_cases hd : d' = d
      · subst hd
        rw [Function.update_self, boundCount_count, hcount]
        simp only [true_and]
        push_cast
        ring
      · rw [Function.update_of_ne hd, if_neg fun heq => hd heq.1.symm, hcount]
        simp
    · rw [hbounds]
      by_cases hd : d' = d
      · subst hd
        rw [Function.update_self]
        exact typeCount_add (h.types d') haccept
      · rw [Function.update_of_ne hd]
        exact h.types d'

theorem boundInv_taskDeInit (h : BoundInv s) (pid : ℤ) (d : Fin n) (taskId : ℤ) :
    BoundInv (s.taskDeInit pid d taskId) := by
  rw [taskDeInit]
  cases hfind : (s.tasks.tasksOf pid d).find? taskId with
  | none =>
    have hremove : s.tasks.removeTask pid d taskId = (s.tasks, none) := by
      rw [removeTask, hfind]
    rw [hremove]
    exact h
  | some bound =>
    have hremove : s.tasks.removeTask pid d taskId =
        ((s.tasks.removeTask pid d taskId).1, some bound) := by
      rw [removeTask, hfind]
    rw [hremove]
    refine ⟨fun d' bound' => ?_, h.types⟩
    have hcount := h.count d' bound'
    rw [count_removeTask s.tasks hfind] at hcount
    simp only [owed, List.map_cons, List.sum_cons, Thread.owes] at hcount ⊢
    rw [hcount]
    push_cast
    ring

/-- Every step keeps the books. -/
theorem boundInv_exec (h : BoundInv s) {op : Op n} (hop : DriverAccepts op) :
    BoundInv (s.exec op) := by
  cases op with
  | handleAllocate pid d taskId size forModel shm =>
    change BoundInv (s.handleAllocate pid d taskId size forModel shm).1
    simp only [handleAllocate]
    split_ifs
    · exact h.congr rfl rfl fun _ _ => rfl
    · cases shm with
      | error code => exact h.congr rfl rfl fun _ _ => rfl
      | ok info => exact h.congr rfl rfl fun _ _ => rfl
  | handleDeallocate pid d address =>
    change BoundInv (s.handleDeallocate pid d address).1
    rw [handleDeallocate]
    split
    · exact h.congr rfl rfl fun _ _ => rfl
    · exact h.congr rfl rfl fun _ _ => rfl
  | taskInit pid d taskId bound modelMemorySize isBlocked ret =>
    obtain rfl : ret = 0 := hop
    exact boundInv_taskInit h pid d taskId bound modelMemorySize isBlocked
  | taskDeInit pid d taskId => exact boundInv_taskDeInit h pid d taskId
  | addScheduler env r d => exact h.congr rfl rfl fun _ _ => rfl
  | finishJobs env d response =>
    refine h.congr rfl rfl fun d' bound => ?_
    change (List.map _ ((_ : Option (Thread n)).toList ++ s.threads)).sum = _
    rw [List.map_append, List.sum_append]
    cases (s.sched.finishLocked env d response).2.drained <;> simp [Thread.owes, owed]
  | onClientDisconnected pid =>
    refine h.congr rfl rfl fun d bound => ?_
    change (List.map _ ((deInitAll pid (List.finRange n)).toList ++ s.threads)).sum = _
    rw [List.map_append, List.sum_append, owes_deInitAll, Nat.zero_add, owed]
  | advance th order ret =>
    obtain rfl : ret = 0 := hop
    change BoundInv (s.advance th order 0)
    rw [advance]
    split_ifs with hth
    · have hsettles := threadStep_settles s order th
      refine ⟨fun d bound => ?_, fun d => (hsettles.types d).trans (h.types d)⟩
      have hcount := h.count d bound
      have hstep := hsettles.count d bound
      have howed := List.sum_map_erase (Thread.owes d bound) hth
      simp only [owed, List.map_append, List.sum_append] at hcount ⊢
      omega
    · exact h

theorem boundInv_init (memAddr memSize : Fin n → ℕ) : BoundInv (init p memAddr memSize) where
  count d bound := rfl
  types _ := by
    change (⟨fun _ => 0⟩ : BoundManager).getBoundTypeCount ≤ 3
    decide

/-- For every state of every run, with any number of calls in progress: the counter of a bound is
    the number of stored tasks with it plus what those calls have still to release, and so the number
    of stored tasks when no deinitialisation is in progress; at most three bounds are in use; a
    failed `HandleTaskInit` and a `HandleTaskDeInit` of an unknown task leave the books alone. -/
theorem bound_bookkeeping {memAddr memSize : Fin n → ℕ}
    (hrun : Relation.ReflTransGen BoundStep (init p memAddr memSize) s) :
    (∀ d bound, (s.bounds d).boundCount bound = s.tasks.count d bound + s.owed d bound) ∧
    ((∀ th ∈ s.threads, th.isDeInit = false) →
      ∀ d bound, (s.bounds d).boundCount bound = s.tasks.count d bound) ∧
    (∀ d, (NpuBoundOp.all.filter fun bound => (s.bounds d).boundCount bound ≠ 0).length ≤ 3) ∧
    (∀ pid d taskId bound modelMemorySize isBlocked,
      (s.taskInit pid d taskId bound modelMemorySize isBlocked 0).2 = false →
      (s.taskInit pid d taskId bound modelMemorySize isBlocked 0).1.bounds = s.bounds ∧
      (s.taskInit pid d taskId bound modelMemorySize isBlocked 0).1.tasks = s.tasks) ∧
    ∀ pid d taskId, s.tasks.hasTask pid d taskId = false → s.taskDeInit pid d taskId = s := by
  have h : BoundInv s := by
    refine Run.invariant ?_ hrun (boundInv_init memAddr memSize)
    rintro s t (⟨op, hop, rfl⟩ | ⟨pid, d, rfl⟩) h
    · exact boundInv_exec h hop
    · refine h.congr rfl rfl fun d' bound => ?_
      simp [handleProcessDeInit, owed, Thread.owes, Phase.entries, countEntries]
  refine ⟨h.count, fun hidle d bound => ?_, fun d => ?_, ?_, ?_⟩
  · have hzero : s.owed d bound = 0 := by
      rw [owed, List.sum_eq_zero_iff]
      intro k hk
      obtain ⟨th, hth, rfl⟩ := List.mem_map.mp hk
      have hidle := hidle th hth
      cases th with
      | onTaskDrained | freeing => rfl
      | deInit | taskDeInit | deleteBound => cases hidle
    rw [h.count, hzero, Nat.cast_zero, add_zero]
  · rw [← List.countP_eq_length_filter]
    refine le_trans (List.countP_mono_left fun bound _ hne => ?_) (h.types d)
    have hcount := h.count d bound
    rw [decide_eq_true_eq] at hne ⊢
    omega
  · intro pid d taskId bound modelMemorySize isBlocked hfail
    obtain ⟨_, hbook⟩ := taskInit_book s pid d taskId bound modelMemorySize isBlocked rfl
    rcases hbook with ⟨_, hbounds, htasks⟩ | ⟨hok, _⟩
    · exact ⟨hbounds, htasks⟩
    · rw [hfail] at hok
      cases hok
  · intro pid d taskId hnone
    have hfind : (s.tasks.tasksOf pid d).find? taskId = none := by
      rw [hasTask, SortedMap.contains] at hnone
      exact Option.isNone_iff_eq_none.mp (Option.isSome_eq_false_iff.mp hnone)
    rw [taskDeInit, removeTask, hfind]

/-- Two tasks with different bounds, a third attempt under an id in use, and the second task is
    deinitialised again. -/
def twoTasks : List (Op 1) :=
  [.taskInit 1 0 5 .normal 4096 false 0, .taskInit 1 0 6 .infOnlyNpu0 4096 false 0,
    .taskInit 1 0 6 .inf2Npu01 4096 false 0, .taskDeInit 1 0 6,
    .advance (.taskDeInit 1 0 6 .infOnlyNpu0) [] 0, .advance (.deleteBound 0 .infOnlyNpu0) [] 0]

theorem bound_bookkeeping_two_tasks : ∃ s : Service .fifo 1,
    Relation.ReflTransGen BoundStep (init .fifo (fun _ => 0) fun _ => 16384) s ∧
      s.tasks.count 0 .normal = 1 ∧ ∀ d bound, (s.bounds d).boundCount bound =
        s.tasks.count d bound := by
  have hallowed : Allowed (fun _ => DriverAccepts)
      (init .fifo (fun _ => 0) fun _ => 16384 : Service .fifo 1) twoTasks := by decide +kernel
  have hrun : Relation.ReflTransGen BoundStep _ _ :=
    Relation.ReflTransGen.mono (fun _ _ hstep => Or.inl hstep) _ _ hallowed.reachable
  have hidle : ∀ th ∈ ((init .fifo (fun _ => 0) fun _ => 16384 : Service .fifo 1).run
      twoTasks).threads, th.isDeInit = false := by decide +kernel
  exact ⟨_, hrun, by decide +kernel, (bound_bookkeeping hrun).2.1 hidle⟩

end Service
end DxRt
