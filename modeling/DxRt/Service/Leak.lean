import DxRt.Service.Departure

/-! The steps of a disconnect, and the result about whole runs.

    Each step of the disconnect takes the process from one stage to the next. The first call of
    `StopAllInferenceForProcess` is where the deferred frees are handed over to the jobs that are
    still in flight; from there on every stage is settled. -/

namespace DxRt.Service
open Scheduler (inFlight)
open MemoryService (Owner)
variable {p : Policy} {n : ℕ} {s t : Service p n} {pid : ℤ} {d : Fin n} {rest : List (Fin n)}
  {phase phase' : Phase}

/-! ### From one stage to the next -/

/-- The disconnect is the only one of its process, so its next step replaces it. -/
theorem filterMap_own {th : Thread n} {x : Fin n × List (Fin n) × Phase}
    (h : s.threads.filterMap (Thread.deInitOf pid) = [x]) (hmem : th ∈ s.threads)
    (hth : th.deInitOf pid = some x) (next : Option (Thread n)) :
    (next.toList ++ s.threads.erase th).filterMap (Thread.deInitOf pid) =
      next.toList.filterMap (Thread.deInitOf pid) := by
  have hperm := (List.perm_cons_erase hmem).filterMap (Thread.deInitOf pid)
  rw [h, List.filterMap_cons_some hth] at hperm
  have hnil : (s.threads.erase th).filterMap (Thread.deInitOf pid) = [] := by
    have hlen := hperm.length_eq
    simp only [List.length_cons, List.length_nil] at hlen
    exact List.eq_nil_of_length_eq_zero (by omega)
  rw [List.filterMap_append, hnil, List.append_nil]

/-- A new phase of the call for the same device. -/
theorem StageInv.nextPhase (h : StageInv pid s (some (d, rest, phase)))
    (hthreads : t.threads.filterMap (Thread.deInitOf pid) = [(d, rest, phase')])
    (hrecords : ∀ d o a, (t.mem d).Owns o a → (s.mem d).Owns o a)
    (htasks : ∀ d' ∈ rest, t.tasks.tasksOf pid d' = s.tasks.tasksOf pid d')
    (hdeferred : ∀ d' taskId, d' ∉ rest → Deferred s pid d' taskId → Deferred t pid d' taskId)
    (htodo : ∀ taskId a, (t.mem d).Owns (.task pid taskId) a → Todo s pid d taskId phase →
      Todo t pid d taskId phase' ∨ Deferred t pid d taskId)
    (hentered : ∀ taskId ∈ entered phase', ∀ a, (t.mem d).Owns (.task pid taskId) a →
      Deferred t pid d taskId)
    (hsettled : Early (some (d, rest, phase')) ∨
      Settled pid t ∧ NoneRunning (some (d, rest, phase'))) :
    StageInv pid t (some (d, rest, phase')) := by
  have hnodup := h.nodup d rest phase rfl
  refine ⟨hthreads, ?_, fun d' o a ho hown => ?_, ?_, hsettled⟩
  · intro d₁ rest₁ phase₁ heq
    cases heq
    exact hnodup
  · obtain ⟨taskId, rfl, hwait⟩ := h.awaited d' o a ho (hrecords d' o a hown)
    refine ⟨taskId, rfl, ?_⟩
    rcases hwait with ⟨rfl, htask⟩ | ⟨hd, hhas⟩ | ⟨hd, hdef⟩
    · rcases htodo taskId a hown htask with htask | hdef
      · exact Or.inl ⟨rfl, htask⟩
      · exact Or.inr (Or.inr ⟨(List.nodup_cons.mp hnodup).1, hdef⟩)
    · refine Or.inr (Or.inl ⟨hd, ?_⟩)
      rwa [TaskInfoStore.hasTask, htasks d' hd]
    · exact Or.inr (Or.inr ⟨hd, hdeferred d' taskId hd hdef⟩)
  · intro d₁ rest₁ phase₁ heq
    cases heq
    exact hentered

/-- The call returns, and the next device is taken up. -/
theorem StageInv.nextDevice {running : List ℤ} {d' : Fin n} {rest' : List (Fin n)}
    (h : StageInv pid s (some (d, d' :: rest', .free running [])))
    (hthreads : t.threads.filterMap (Thread.deInitOf pid) = [(d', rest', .readRunning)])
    (hrecords : ∀ d o a, (t.mem d).Owns o a → (s.mem d).Owns o a) (htasks : t.tasks = s.tasks)
    (hdeferred : ∀ d taskId, Deferred s pid d taskId → Deferred t pid d taskId)
    (hsettled : Settled pid s → Settled pid t) :
    StageInv pid t (some (d', rest', .readRunning)) := by
  have hnodup := (List.nodup_cons.mp (h.nodup _ _ _ rfl)).2
  refine ⟨hthreads, ?_, fun d₁ o a ho hown => ?_, ?_, Or.inr ⟨?_, trivial⟩⟩
  · intro d₁ rest₁ phase₁ heq
    cases heq
    exact hnodup
  · obtain ⟨taskId, rfl, hwait⟩ := h.awaited d₁ o a ho (hrecords d₁ o a hown)
    refine ⟨taskId, rfl, ?_⟩
    rcases hwait with ⟨_, htask⟩ | ⟨hd, hhas⟩ | ⟨hd, hdef⟩
    · cases htask
    · rw [← htasks] at hhas
      rcases List.mem_cons.mp hd with rfl | hd
      · exact Or.inl ⟨rfl, hhas⟩
      · exact Or.inr (Or.inl ⟨hd, hhas⟩)
    · exact Or.inr (Or.inr ⟨fun hmem => hd (List.mem_cons_of_mem _ hmem),
        hdeferred d₁ taskId hdef⟩)
  · intro d₁ rest₁ phase₁ heq taskId htask
    cases heq
    cases htask
  · exact hsettled (h.settled.resolve_left fun hearly => hearly.2).1

/-- The last call returns. -/
theorem StageInv.returned {running : List ℤ}
    (h : StageInv pid s (some (d, [], .free running [])))
    (hthreads : t.threads.filterMap (Thread.deInitOf pid) = [])
    (hrecords : ∀ d o a, (t.mem d).Owns o a → (s.mem d).Owns o a)
    (hdeferred : ∀ d taskId, Deferred s pid d taskId → Deferred t pid d taskId)
    (hsettled : Settled pid s → Settled pid t) : StageInv pid t none := by
  refine ⟨hthreads, nofun, fun d₁ o a ho hown => ?_, nofun, Or.inr ⟨?_, trivial⟩⟩
  · obtain ⟨taskId, rfl, hwait⟩ := h.awaited d₁ o a ho (hrecords d₁ o a hown)
    refine ⟨taskId, rfl, ?_⟩
    rcases hwait with ⟨_, htask⟩ | ⟨hd, _⟩ | ⟨_, hdef⟩
    · cases htask
    · cases hd
    · exact hdeferred d₁ taskId hdef
  · exact hsettled (h.settled.resolve_left fun hearly => hearly.2).1

/-! ### The steps of the disconnect -/

/-- The state after a step of the disconnect. -/
def moved (s : Service p n) (th : Thread n) (order : TaskEntries) (ret : ℤ) : Service p n :=
  { (s.threadStep order ret th).1 with
    threads := (s.threadStep order ret th).2.toList ++ s.threads.erase th }

theorem moved_mem_threads {th th' : Thread n} (order : TaskEntries) (ret : ℤ)
    (hmem : th' ∈ s.threads) (hne : th' ≠ th) : th' ∈ (s.moved th order ret).threads :=
  List.mem_append_right _ ((List.mem_erase_of_ne hne).mpr hmem)

/-- Deferred frees survive a step that keeps the table. -/
theorem Deferred.moved {order : TaskEntries} {ret : ℤ} {d' : Fin n} {taskId : ℤ}
    (h : Deferred s pid d' taskId)
    (htable : s.pendingTaskFree.find? (toLex (pid, taskId)) = some d' →
      (s.moved (.deInit pid d rest phase) order ret).pendingTaskFree.find? (toLex (pid, taskId)) =
        some d') :
    Deferred (s.moved (.deInit pid d rest phase) order ret) pid d' taskId :=
  h.imp htable fun hmem => moved_mem_threads order ret hmem nofun

theorem Settled.moved {order : TaskEntries} {ret : ℤ} (h : Settled pid s)
    (htable : ∀ taskId, (s.moved (.deInit pid d rest phase) order ret).pendingTaskFree.find?
      (toLex (pid, taskId)) = s.pendingTaskFree.find? (toLex (pid, taskId))) :
    Settled pid (s.moved (.deInit pid d rest phase) order ret) := by
  refine h.stopped (threadStep_stopped s order ret _) fun taskId d' hfind => ?_
  rw [htable] at hfind
  exact ⟨hfind, fun hmem => moved_mem_threads order ret hmem nofun⟩

/-- Nothing is running for a process whose requests are all cancelled. -/
theorem getRunningTaskIds_of_quiet {s : Scheduler p n}
    (h : ∀ req, s.CancelledOrGone (pid, req)) : s.getRunningTaskIds pid = [] := by
  rw [Scheduler.getRunningTaskIds]
  cases hfind : s.map.find? pid with
  | none => rfl
  | some requests =>
    have hnone : requests.entries.filter (fun kv => decide (kv.2.state = .running)) = [] := by
      refine List.filter_eq_nil_iff.mpr fun kv hkv hrun => ?_
      have he : s.entry (pid, kv.1) = some kv.2 := by
        rw [Scheduler.entry, hfind, Option.bind_some, SortedMap.find?_eq_some]
        exact hkv
      rw [h kv.1 kv.2 he] at hrun
      cases of_decide_eq_true hrun
    simp only [hnone]
    rfl

theorem mem_extract {store : TaskInfoStore n} {order : TaskEntries} {taskId : ℤ}
    (h : store.hasTask pid d taskId = true) :
    taskId ∈ (store.extractTaskIdsWithBound pid d order).2.map Prod.fst := by
  rw [TaskInfoStore.hasTask, TaskInfoStore.tasksOf] at h
  rw [TaskInfoStore.extractTaskIdsWithBound]
  cases hfind : store.find? (toLex (pid, d)) with
  | none =>
    rw [hfind] at h
    cases h
  | some tasks =>
    rw [hfind, Option.getD_some, SortedMap.contains_iff] at h
    obtain ⟨bound, hbound⟩ := h
    have hmem := (tasks.find?_eq_some _ _).mp hbound
    refine List.mem_map.mpr ⟨(taskId, bound), ?_, rfl⟩
    simp only
    split_ifs with hperm
    · exact (List.isPerm_iff.mp hperm).mem_iff.mpr hmem
    · exact hmem

section Own
variable {running : List ℤ} {taskEntries : TaskEntries} {order : TaskEntries} {ret : ℤ}

theorem own_threads (h : StageInv pid s (some (d, rest, phase)))
    (hth : .deInit pid d rest phase ∈ s.threads) :
    (s.moved (.deInit pid d rest phase) order ret).threads.filterMap (Thread.deInitOf pid) =
      (s.threadStep order ret (.deInit pid d rest phase)).2.toList.filterMap
        (Thread.deInitOf pid) :=
  filterMap_own h.threads hth (if_pos rfl) _

theorem own_records (d' : Fin n) (o : Owner) (a : ℕ)
    (hown : ((s.moved (.deInit pid d rest phase) order ret).mem d').Owns o a) :
    (s.mem d').Owns o a :=
  (threadStep_owns hown).1

theorem own_readRunning (h : StageInv pid s (some (d, rest, .readRunning)))
    (hth : .deInit pid d rest .readRunning ∈ s.threads) :
    StageInv pid (s.moved (.deInit pid d rest .readRunning) order ret)
      (some (d, rest, .deferFree (s.sched.getRunningTaskIds pid))) := by
  refine h.nextPhase ?_ own_records (fun _ _ => rfl) (fun _ _ _ hdef => hdef.moved id)
    (fun _ _ _ htodo => Or.inl htodo) nofun ?_
  · rw [own_threads h hth]
    simp [threadStep, deInitStep, Thread.deInitOf]
  · rcases h.settled with hearly | ⟨hset, _⟩
    · exact Or.inl hearly
    · exact Or.inr ⟨hset.moved fun _ => rfl, getRunningTaskIds_of_quiet hset.quiet⟩

/-- The table after the deferred frees were entered. -/
theorem find?_moved_deferFree (taskId : ℤ) :
    (s.moved (.deInit pid d rest (.deferFree running)) order ret).pendingTaskFree.find?
      (toLex (pid, taskId)) = if taskId ∈ running then some d
      else s.pendingTaskFree.find? (toLex (pid, taskId)) := by
  have hfind := find?_deferFree pid d running pid taskId s.pendingTaskFree
  simp only [true_and] at hfind
  exact hfind

theorem own_deferFree (h : StageInv pid s (some (d, rest, .deferFree running)))
    (hth : .deInit pid d rest (.deferFree running) ∈ s.threads) :
    StageInv pid (s.moved (.deInit pid d rest (.deferFree running)) order ret)
      (some (d, rest, .stopAll running)) := by
  refine h.nextPhase ?_ own_records (fun _ _ => rfl) (fun d' taskId hd hdef => hdef.moved ?_)
    (fun _ _ _ htodo => Or.inl htodo) (fun taskId htask _ _ => Or.inl ?_) ?_
  · rw [own_threads h hth]
    simp [threadStep, deInitStep, Thread.deInitOf]
  · intro hfind
    rw [find?_moved_deferFree]
    split_ifs with hrun
    · -- only the first device has a task to enter, and no other device has deferred frees yet
      rcases h.settled with ⟨hall, _⟩ | ⟨_, hnone⟩
      · rw [(hall d').resolve_right hd]
      · obtain rfl : running = [] := hnone
        cases hrun
    · exact hfind
  · exact (find?_moved_deferFree taskId).trans (if_pos htask)
  · rcases h.settled with hearly | ⟨hset, hnone⟩
    · exact Or.inl hearly
    · obtain rfl : running = [] := hnone
      exact Or.inr ⟨hset.moved fun _ => rfl, trivial⟩

/-- Every request of the process is cancelled or removed. -/
theorem quiet_stopAll (s : Scheduler p n) (pid : ℤ) (d : Fin n) (req : ℤ) :
    (s.stopAllInferenceForProcess pid d).CancelledOrGone (pid, req) := by
  intro e' he'
  rw [Scheduler.entry_stopAll, if_pos rfl] at he'
  obtain ⟨e, _, hstop⟩ := Option.bind_eq_some_iff.mp he'
  rw [Scheduler.stopEntry] at hstop
  split at hstop
  · cases hstop
    rfl
  · cases hstop
  · rename_i hst
    cases hstop
    exact hst

/-- The deferred frees are handed over: from here on the process is settled. -/
theorem settled_stopAll (hop : Handover pid s (.advance (.deInit pid d rest (.stopAll running))
    order ret)) : Settled pid (s.moved (.deInit pid d rest (.stopAll running)) order ret) := by
  refine ⟨quiet_stopAll s.sched pid d, fun taskId d' hfind => ?_⟩
  have hkey : toLex (pid, taskId) ∈ s.pendingTaskFree.keys :=
    List.mem_map_of_mem ((s.pendingTaskFree.find?_eq_some _ _).mp hfind)
  rcases hop rfl _ hkey rfl with ⟨d₁, job, hmem, hjob⟩ | hnotice
  · rw [← (Scheduler.stopAll_stopped s.sched pid d).inFlight] at hmem
    exact Or.inl ⟨d₁, job, hmem, hjob⟩
  · exact Or.inr (moved_mem_threads order ret hnotice nofun)

theorem own_stopAll (h : StageInv pid s (some (d, rest, .stopAll running)))
    (hth : .deInit pid d rest (.stopAll running) ∈ s.threads)
    (hop : Handover pid s (.advance (.deInit pid d rest (.stopAll running)) order ret)) :
    StageInv pid (s.moved (.deInit pid d rest (.stopAll running)) order ret)
      (some (d, rest, .extract running)) := by
  refine h.nextPhase ?_ own_records (fun _ _ => rfl) (fun _ _ _ hdef => hdef.moved id)
    (fun _ _ _ htodo => Or.inl htodo)
    (fun taskId htask a hown => (h.deferred d rest _ rfl taskId htask a hown).moved id)
    (Or.inr ⟨settled_stopAll hop, trivial⟩)
  rw [own_threads h hth]
  simp [threadStep, deInitStep, Thread.deInitOf]

theorem own_extract (h : StageInv pid s (some (d, rest, .extract running)))
    (hth : .deInit pid d rest (.extract running) ∈ s.threads) :
    StageInv pid (s.moved (.deInit pid d rest (.extract running)) order ret)
      (some (d, rest, .stopTasks running (s.tasks.extractTaskIdsWithBound pid d order).2
        (s.tasks.extractTaskIdsWithBound pid d order).2)) := by
  have hnodup := List.nodup_cons.mp (h.nodup d rest _ rfl)
  refine h.nextPhase ?_ own_records (fun d' hd => ?_) (fun _ _ _ hdef => hdef.moved id)
    (fun _ _ _ htodo => Or.inl (mem_extract htodo))
    (fun taskId htask a hown => (h.deferred d rest _ rfl taskId htask a hown).moved id)
    (Or.inr ⟨?_, trivial⟩)
  · rw [own_threads h hth]
    simp [threadStep, deInitStep, Thread.deInitOf]
  · refine (tasksOf_extract s.tasks pid d order pid d').trans (if_neg fun heq => ?_)
    exact hnodup.1 (heq.2 ▸ hd)
  · exact (h.settled.resolve_left fun hearly => hearly.2).1.moved fun _ => rfl

theorem own_stopTasks {todo : TaskEntries}
    (h : StageInv pid s (some (d, rest, .stopTasks running todo taskEntries)))
    (hth : .deInit pid d rest (.stopTasks running todo taskEntries) ∈ s.threads) :
    ∃ phase', StageInv pid (s.moved (.deInit pid d rest (.stopTasks running todo taskEntries))
      order ret) (some (d, rest, phase')) := by
  have hset := (h.settled.resolve_left fun hearly => hearly.2).1
  cases todo with
  | nil =>
    refine ⟨.free running taskEntries, h.nextPhase ?_ own_records (fun _ _ => rfl)
      (fun _ _ _ hdef => hdef.moved id) (fun _ _ _ htodo => Or.inl htodo)
      (fun taskId htask a hown => (h.deferred d rest _ rfl taskId htask a hown).moved id)
      (Or.inr ⟨hset.moved fun _ => rfl, trivial⟩)⟩
    rw [own_threads h hth]
    simp [threadStep, deInitStep, Thread.deInitOf]
  | cons entry todo =>
    refine ⟨.stopTasks running todo taskEntries, h.nextPhase ?_ own_records (fun _ _ => rfl)
      (fun _ _ _ hdef => hdef.moved id) (fun _ _ _ htodo => Or.inl htodo)
      (fun taskId htask a hown => (h.deferred d rest _ rfl taskId htask a hown).moved id)
      (Or.inr ⟨hset.moved fun _ => rfl, trivial⟩)⟩
    rw [own_threads h hth]
    simp [threadStep, deInitStep, Thread.deInitOf]

/-- A task that was running stays for its drain notice; any other one is freed. -/
theorem own_free {entry : ℤ × NpuBoundOp}
    (h : StageInv pid s (some (d, rest, .free running (entry :: taskEntries))))
    (hth : .deInit pid d rest (.free running (entry :: taskEntries)) ∈ s.threads) :
    StageInv pid (s.moved (.deInit pid d rest (.free running (entry :: taskEntries))) order ret)
      (some (d, rest, .deleteBound running entry.2 taskEntries)) := by
  have hset := (h.settled.resolve_left fun hearly => hearly.2).1
  have htable : (s.moved (.deInit pid d rest (.free running (entry :: taskEntries))) order
      ret).pendingTaskFree = s.pendingTaskFree := by
    simp only [moved, threadStep, deInitStep]
    split_ifs <;> rfl
  have htasks : (s.moved (.deInit pid d rest (.free running (entry :: taskEntries))) order
      ret).tasks = s.tasks := by
    simp only [moved, threadStep, deInitStep]
    split_ifs <;> rfl
  have hdeferred : ∀ d' taskId, Deferred s pid d' taskId → Deferred (s.moved (.deInit pid d rest
      (.free running (entry :: taskEntries))) order ret) pid d' taskId := by
    intro d' taskId hdef
    refine hdef.moved fun hfind => ?_
    rwa [htable]
  refine h.nextPhase ?_ own_records (fun d' _ => by rw [htasks])
    (fun d' taskId _ => hdeferred d' taskId) (fun taskId a hown htodo => ?_)
    (fun taskId htask a hown => hdeferred d taskId
      (h.deferred d rest _ rfl taskId htask a (own_records _ _ _ hown)))
    (Or.inr ⟨hset.moved fun taskId => by rw [htable], trivial⟩)
  · rw [own_threads h hth]
    simp [threadStep, deInitStep, Thread.deInitOf]
  · rcases List.mem_cons.mp htodo with rfl | htodo
    · by_cases hrun : entry.1 ∈ running
      · exact Or.inr (hdeferred d entry.1
          (h.deferred d rest _ rfl entry.1 hrun a (own_records _ _ _ hown)))
      · exact absurd rfl ((threadStep_owns hown).2 pid entry.1 (if_neg hrun))
    · exact Or.inl htodo

theorem own_deleteBound {bound : NpuBoundOp}
    (h : StageInv pid s (some (d, rest, .deleteBound running bound taskEntries)))
    (hth : .deInit pid d rest (.deleteBound running bound taskEntries) ∈ s.threads) :
    StageInv pid (s.moved (.deInit pid d rest (.deleteBound running bound taskEntries)) order ret)
      (some (d, rest, .free running taskEntries)) := by
  have hset := (h.settled.resolve_left fun hearly => hearly.2).1
  refine h.nextPhase ?_ own_records (fun _ _ => rfl) (fun _ _ _ hdef => hdef.moved id)
    (fun _ _ _ htodo => Or.inl htodo)
    (fun taskId htask a hown => (h.deferred d rest _ rfl taskId htask a hown).moved id)
    (Or.inr ⟨hset.moved fun _ => rfl, trivial⟩)
  rw [own_threads h hth]
  simp [threadStep, deInitStep, Thread.deInitOf]

theorem own_return (h : StageInv pid s (some (d, rest, .free running [])))
    (hth : .deInit pid d rest (.free running []) ∈ s.threads) :
    ∃ stage, StageInv pid (s.moved (.deInit pid d rest (.free running [])) order ret) stage := by
  cases rest with
  | nil =>
    refine ⟨none, h.returned ?_ own_records (fun _ _ hdef => hdef.moved id)
      fun hset => hset.moved fun _ => rfl⟩
    rw [own_threads h hth]
    rfl
  | cons d' rest =>
    refine ⟨some (d', rest, .readRunning), h.nextDevice ?_ own_records rfl
      (fun _ _ hdef => hdef.moved id) fun hset => hset.moved fun _ => rfl⟩
    rw [own_threads h hth]
    simp [threadStep, deInitStep, deInitAll, Thread.deInitOf]

/-- Every step of the disconnect leads to another stage. -/
theorem own_step (h : StageInv pid s (some (d, rest, phase)))
    (hth : .deInit pid d rest phase ∈ s.threads)
    (hop : Handover pid s (.advance (.deInit pid d rest phase) order ret)) :
    ∃ stage, StageInv pid (s.moved (.deInit pid d rest phase) order ret) stage := by
  cases phase with
  | readRunning => exact ⟨_, own_readRunning h hth⟩
  | deferFree running => exact ⟨_, own_deferFree h hth⟩
  | stopAll running => exact ⟨_, own_stopAll h hth hop⟩
  | extract running => exact ⟨_, own_extract h hth⟩
  | stopTasks running todo taskEntries =>
    obtain ⟨phase', hstage⟩ := own_stopTasks h hth
    exact ⟨_, hstage⟩
  | deleteBound running bound taskEntries => exact ⟨_, own_deleteBound h hth⟩
  | free running taskEntries =>
    cases taskEntries with
    | nil => exact own_return h hth
    | cons entry taskEntries => exact ⟨_, own_free h hth⟩

end Own

/-! ### Runs -/

/-- The scheduler is in order, and the disconnect is at some stage. -/
structure LeavingInv (pid : ℤ) (s : Service p n) : Prop where
  sched : SchedInv s
  stage : ∃ stage, StageInv pid s stage

theorem leavingInv_step (s t : Service p n)
    (hst : Step (fun s op => Departing pid s op ∧ Handover pid s op) s t) (h : LeavingInv pid s) :
    LeavingInv pid t := by
  obtain ⟨op, ⟨⟨hreg, hpid⟩, hop⟩, rfl⟩ := hst
  obtain ⟨stage, hstage⟩ := h.stage
  refine ⟨schedInv_exec h.sched hreg, ?_⟩
  have heffect := exec_effect s op
  generalize s.exec op = t at heffect ⊢
  cases heffect with
  | @client _ pid' _ hclient hcall =>
    have hne : pid ≠ pid' := by
      rintro rfl
      cases op with
      | addScheduler | onClientDisconnected | finishJobs | advance => cases hclient
      | handleAllocate | handleDeallocate | taskInit | taskDeInit => exact hpid hclient
    exact ⟨stage, hstage.frame (frame_client hne hcall h.sched)⟩
  | added env r d =>
    exact ⟨stage, hstage.frame (frame_added h.sched hreg fun heq => hpid (congrArg some heq))⟩
  | finished env d response => exact ⟨stage, hstage.frame (frame_finished h.sched hreg)⟩
  | disconnected pid' =>
    exact ⟨stage, hstage.frame (frame_disconnected h.sched fun heq => hpid (congrArg some heq))⟩
  | @moved th order ret hth =>
    cases hown : th.deInitOf pid with
    | none => exact ⟨stage, hstage.frame (frame_moved hown)⟩
    | some x =>
      -- a disconnect of the process can only be the one whose stage is known
      have hmem : x ∈ s.threads.filterMap (Thread.deInitOf pid) :=
        List.mem_filterMap.mpr ⟨th, hth, hown⟩
      rw [hstage.threads, Option.mem_toList] at hmem
      cases th with
      | taskDeInit | deleteBound | onTaskDrained | freeing => cases hown
      | deInit pid' d rest phase =>
        rw [Thread.deInitOf] at hown
        split_ifs at hown with heq
        subst heq
        cases hown
        cases hmem
        exact own_step hstage hth hop
  | idle => exact ⟨stage, hstage⟩

/-- At the start every block of the process is recorded for a registered task. -/
theorem stageInv_start (hregistered : Registered s pid)
    (hsingle : ∀ th ∈ s.threads, th.deInitOf pid = none) {d : Fin n} {rest : List (Fin n)}
    (hdevices : List.finRange n = d :: rest) :
    StageInv pid (s.onClientDisconnected pid) (some (d, rest, .readRunning)) := by
  have hall : ∀ d', d' = d ∨ d' ∈ rest := fun d' =>
    List.mem_cons.mp (hdevices ▸ List.mem_finRange d')
  refine ⟨?_, ?_, fun d' o a ho hown => ?_, ?_, Or.inl ⟨hall, trivial⟩⟩
  · have hnil : s.threads.filterMap (Thread.deInitOf pid) = [] :=
      List.filterMap_eq_nil_iff.mpr hsingle
    simp [onClientDisconnected, hdevices, deInitAll, Thread.deInitOf, hnil]
  · intro d₁ rest₁ phase₁ heq
    cases heq
    exact hdevices ▸ List.nodup_finRange n
  · obtain ⟨hlegacy, htasks⟩ := hregistered d'
    cases o with
    | legacy q =>
      obtain rfl : q = pid := ho
      have hno := MemoryService.isEmpty_contains hlegacy a
      cases hown.symm.trans hno
    | task q taskId =>
      obtain rfl : q = pid := ho
      obtain ⟨tasks, set, hfind, hset, _⟩ := MemoryService.owns_task_iff.mp hown
      change (s.mem d').taskAllocInfo.find? q = some tasks at hfind
      rw [hfind, Option.getD_some] at htasks
      have hhas := htasks (taskId, set) ((tasks.find?_eq_some _ _).mp hset)
      exact ⟨taskId, rfl, (hall d').imp (fun hd => ⟨hd, hhas⟩) fun hd => Or.inl ⟨hd, hhas⟩⟩
  · intro d₁ rest₁ phase₁ heq taskId htask
    cases heq
    cases htask

/-- A process whose blocks are all registered disconnects, and the deferred frees are handed over to
    jobs in flight: when the disconnect and the notices have returned and every submission of the
    process is answered, nothing of the process is left. -/
theorem no_leak_after_disconnect {memAddr memSize : Fin n → ℕ} {s₀ s : Service p n} {pid : ℤ}
    (hhistory : Relation.ReflTransGen (Step Regular) (init p memAddr memSize) s₀)
    (hsingle : ∀ th ∈ s₀.threads, th.deInitOf pid = none) (hregistered : Registered s₀ pid)
    (hrun : Relation.ReflTransGen (Step fun s op => Departing pid s op ∧ Handover pid s op)
      (s₀.onClientDisconnected pid) s)
    (hreturned : ∀ th ∈ s.threads, ¬ th.CleansUp pid)
    (hanswered : ∀ d, ∀ job ∈ inFlight d s.sched.log, job.1.1 ≠ pid) : Clean s pid := by
  cases hdevices : List.finRange n with
  | nil =>
    -- without a device there is nothing to record
    have hnone : ∀ d : Fin n, False := fun d => by
      have := List.mem_finRange d
      rw [hdevices] at this
      cases this
    refine ⟨fun d => (hnone d).elim, fun taskId => ?_⟩
    cases hfind : s.pendingTaskFree.find? (toLex (pid, taskId)) with
    | none => rfl
    | some d => exact (hnone d).elim
  | cons d rest =>
    have hs₀ : SchedInv s₀ := by
      refine Run.invariant (fun s t hst hs => ?_) hhistory (schedInv_init p memAddr memSize)
      obtain ⟨op, hreg, rfl⟩ := hst
      exact schedInv_exec hs hreg
    have hstart : LeavingInv pid (s₀.onClientDisconnected pid) :=
      ⟨hs₀.congr rfl, _, stageInv_start hregistered hsingle hdevices⟩
    obtain ⟨_, stage, hstage⟩ := Run.invariant leavingInv_step hrun hstart
    cases stage with
    | none => exact hstage.clean hreturned hanswered
    | some x =>
      -- a stage would be a thread of the disconnect
      have hmem : x ∈ s.threads.filterMap (Thread.deInitOf pid) := by
        rw [hstage.threads]
        exact List.mem_singleton_self x
      obtain ⟨th, hth, hown⟩ := List.mem_filterMap.mp hmem
      cases th with
      | taskDeInit | deleteBound | onTaskDrained | freeing => cases hown
      | deInit pid' d rest phase =>
        rw [Thread.deInitOf] at hown
        split_ifs at hown with heq
        exact absurd heq (hreturned _ hth)

instance (s : Service p n) (pid taskId : ℤ) : Decidable (Busy s pid taskId) :=
  inferInstanceAs (Decidable (_ ∨ _))

instance (pid : ℤ) (s : Service p n) (op : Op n) : Decidable (Departing pid s op) :=
  inferInstanceAs (Decidable (_ ∧ _))

instance (s : Service p n) (pid : ℤ) : Decidable (Registered s pid) :=
  inferInstanceAs (Decidable (∀ _, _ ∧ ∀ _ ∈ _, _))

instance (pid : ℤ) (s : Service p n) : ∀ op, Decidable (Handover pid s op)
  | .advance th _ _ =>
    match th with
    | .deInit pid' _ _ phase =>
      match phase with
      | .stopAll _ => inferInstanceAs (Decidable (pid' = pid → ∀ key ∈ s.pendingTaskFree.keys,
          (ofLex key).1 = pid → Busy s pid (ofLex key).2))
      | .readRunning | .deferFree _ | .extract _ | .stopTasks .. | .free .. | .deleteBound .. =>
        isTrue trivial
    | .taskDeInit .. | .deleteBound .. | .onTaskDrained .. | .freeing .. => isTrue trivial
  | .handleAllocate .. | .handleDeallocate .. | .taskInit .. | .taskDeInit .. | .addScheduler ..
  | .finishJobs .. | .onClientDisconnected .. => isTrue trivial

/-- All steps of a disconnect of process 1 that finds task 5 running, its answer and the drain
    notice. -/
def fullDisconnect : List (Op 1) :=
  ([.readRunning, .deferFree [5], .stopAll [5], .extract [5],
      .stopTasks [5] [(5, .normal)] [(5, .normal)], .stopTasks [5] [] [(5, .normal)],
      .free [5] [(5, .normal)], .deleteBound [5] .normal [], .free [5] []].map
    fun phase => .advance (.deInit 1 0 [] phase) [] 0) ++
  [.finishJobs Scheduler.accepting 0 ⟨1, 7, 5, 0⟩, .advance (.onTaskDrained 1 5) [] 0,
    .advance (.freeing 1 5 0) [] 0]

/-- A registered task with a running request leaves nothing behind. -/
theorem no_leak_after_disconnect_running_task : ∃ s₀ s : Service .fifo 1,
    (s₀.mem 0).Owns (.task 1 5) 0 ∧
      Relation.ReflTransGen (Step fun s op => Departing 1 s op ∧ Handover 1 s op)
        (s₀.onClientDisconnected 1) s ∧ s.threads = [] ∧ Clean s 1 := by
  have hhistory : Relation.ReflTransGen (Step Regular)
      (init .fifo (fun _ : Fin 1 => 0) fun _ => 16384)
      ((init .fifo (fun _ => 0) fun _ => 16384).run (startTask 0)) :=
    Allowed.reachable (by decide +kernel)
  have hrun : Relation.ReflTransGen (Step fun s op => Departing 1 s op ∧ Handover 1 s op)
      (((init .fifo (fun _ : Fin 1 => 0) fun _ => 16384).run (startTask 0)).onClientDisconnected 1)
      ((((init .fifo (fun _ => 0) fun _ => 16384).run (startTask 0)).onClientDisconnected 1).run
        fullDisconnect) :=
    Allowed.reachable (by decide +kernel)
  exact ⟨_, _, by decide +kernel, hrun, by decide +kernel, no_leak_after_disconnect hhistory
    (by decide +kernel) (by decide +kernel) hrun (by decide +kernel) (by decide +kernel)⟩

/-- Process 1 with a block that belongs to no task. -/
def oneLegacyBlock : List (Op 1) :=
  [.handleAllocate 1 0 (-1) 4096 false (.ok ⟨1, 4096, 2 ^ 30, 0, 0, 3⟩)]

/-- All steps of a disconnect of process 1 that finds no task. -/
def emptyDisconnect : List (Op 1) :=
  [.readRunning, .deferFree [], .stopAll [], .extract [], .stopTasks [] [] [], .free [] []].map
    fun phase => .advance (.deInit 1 0 [] phase) [] 0

/-- A block allocated with task id -1 is in no task, and no step of the disconnect looks for it:
    the process is gone and the block is recorded for it for ever. -/
theorem no_leak_after_disconnect_legacy_block : ∃ s₀ s : Service .fifo 1,
    Relation.ReflTransGen (Step Regular) (init .fifo (fun _ => 0) fun _ => 16384) s₀ ∧
      s₀.threads = [] ∧
      Relation.ReflTransGen (Step (Departing 1)) (s₀.onClientDisconnected 1) s ∧
      s.threads = [] ∧ (∀ d, inFlight d s.sched.log = []) ∧ ¬ Clean s 1 := by
  have hhistory : Relation.ReflTransGen (Step Regular)
      (init .fifo (fun _ : Fin 1 => 0) fun _ => 16384)
      ((init .fifo (fun _ => 0) fun _ => 16384).run oneLegacyBlock) :=
    Allowed.reachable (by decide +kernel)
  have hrun : Relation.ReflTransGen (Step (Departing 1))
      (((init .fifo (fun _ : Fin 1 => 0) fun _ => 16384).run oneLegacyBlock
        ).onClientDisconnected 1)
      ((((init .fifo (fun _ => 0) fun _ => 16384).run oneLegacyBlock).onClientDisconnected 1).run
        emptyDisconnect) :=
    Allowed.reachable (by decide +kernel)
  refine ⟨_, _, hhistory, by decide +kernel, hrun, by decide +kernel, by decide +kernel, ?_⟩
  exact fun hclean => hclean.1 0 (.legacy 1) 0 rfl (by decide +kernel)

end DxRt.Service
