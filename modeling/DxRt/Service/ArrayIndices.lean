import DxRt.Lib.SortedMap
import DxRt.Lib.Workers

/-! lib/dxrt_service/bound_manager.cpp, service_device.cpp, dxrt_service_v2.cpp: numbers of a client
    as array indices.

    The bound of a task and the channel of a usage request come from a packet as they are. The bound
    is an index into the counters of a device, when the task is initialised and again when its stored
    bound is released; the channel is an index into the timers. An access outside an array has no
    defined result: the model has no step for it. -/

namespace DxRt.ArrayIndices

/-- `N_BOUND_INF_MAX`, the length of `_bound_count`. -/
def boundInfMax : ℕ := 7

/-- The length of `_timer`. -/
def timerCount : ℕ := 3

/-- An index into an array of length `k`; `none` outside of it. -/
def index (k : ℕ) (i : ℤ) : Option (Fin k) :=
  if h : 0 ≤ i ∧ i < k then some ⟨i.toNat, by omega⟩ else none

/-! ### Counters of a device -/

abbrev BoundCount := Fin boundInfMax → ℤ

namespace BoundCount

def getBoundTypeCount (c : BoundCount) : ℕ := (List.finRange boundInfMax).countP fun i => 0 < c i

def canAcceptBound (c : BoundCount) (bound : ℤ) : Option Bool :=
  (index boundInfMax bound).map fun i => if 0 < c i then true else c.getBoundTypeCount < 3

/-- With the answer of the driver to a bound that is not in use. -/
def addBound (c : BoundCount) (bound ret : ℤ) : Option (BoundCount × ℤ) :=
  (index boundInfMax bound).map fun i =>
    if 0 < c i then (Function.update c i (c i + 1), 0)
    else if ret = 0 then (Function.update c i (c i + 1), ret) else (c, ret)

def deleteBound (c : BoundCount) (bound ret : ℤ) : Option BoundCount :=
  (index boundInfMax bound).map fun i =>
    if 1 < c i then Function.update c i (c i - 1)
    else if ret = 0 then Function.update c i (c i - 1) else c

end BoundCount

/-! ### The service -/

/-- A task: process, device and task id. -/
abbrev TaskKey := ℤ ×ₗ ℤ ×ₗ ℤ

def taskKey (pid deviceId taskId : ℤ) : TaskKey := toLex (pid, toLex (deviceId, taskId))

/-- The counters of each device and the bounds in `_taskInfoStore`. -/
structure State (n : ℕ) where
  boundCount : Fin n → BoundCount
  tasks : SortedMap TaskKey ℤ

def State.init (n : ℕ) : State n := ⟨fun _ _ => 0, .empty⟩

/-- Packets, the end of a process, and the rest of a call after a lock is given back. -/
inductive Work where
  | taskInit (pid deviceId taskId bound : ℤ) (modelMemorySize : ℕ)
  | addTask (pid deviceId taskId bound : ℤ)
  | taskDeInit (pid deviceId taskId : ℤ)
  | processDeInit (pid deviceId : ℤ)
  | deleteBound (deviceId bound : ℤ)
  | getUsage (deviceId channel : ℤ)
  deriving DecidableEq

/-- The memory service with its free size before and after `OptimizeMemory`, whether the device is
    blocked, and the answer of the driver. -/
structure Circumstances where
  free : Option (ℕ × ℕ)
  blocked : Bool
  ret : ℤ

/-- There is a memory service with enough memory. -/
def Circumstances.hasMemory (e : Circumstances) (size : ℕ) : Bool :=
  match e.free with
  | none => false
  | some (free, optimized) => size ≤ free ∨ size ≤ optimized

variable {n : ℕ}

/-- The part of `TaskInit` under `_deviceMutex`. -/
def State.acceptBound (s : State n) (d : Fin n) (pid deviceId taskId bound ret : ℤ) :
    Option (State n × List Work) :=
  match (s.boundCount d).canAcceptBound bound with
  | none => none
  | some false => some (s, [])
  | some true =>
    match (s.boundCount d).addBound bound ret with
    | none => none
    | some (counts, ret) =>
      some ({ s with boundCount := Function.update s.boundCount d counts },
        if ret = 0 then [.addTask pid deviceId taskId bound] else [])

/-- The tasks of a process on a device. -/
def State.tasksOf (s : State n) (pid deviceId : ℤ) : List (TaskKey × ℤ) :=
  s.tasks.entries.filter fun entry =>
    decide ((ofLex entry.1).1 = pid ∧ (ofLex (ofLex entry.1).2).1 = deviceId)

def exec (s : State n) : Work → Circumstances → Option (State n × List Work)
  | .taskInit pid deviceId taskId bound size, e =>
    match index n deviceId with
    | none => some (s, [])
    | some d =>
      if e.hasMemory size = false ∨ e.blocked then some (s, [])
      else s.acceptBound d pid deviceId taskId bound e.ret
  | .addTask pid deviceId taskId bound, _ =>
    if s.tasks.contains (taskKey pid deviceId taskId) then some (s, [.deleteBound deviceId bound])
    else some ({ s with tasks := s.tasks.insert (taskKey pid deviceId taskId) bound }, [])
  | .taskDeInit pid deviceId taskId, _ =>
    match s.tasks.find? (taskKey pid deviceId taskId) with
    | none => some (s, [])
    | some bound =>
      some ({ s with tasks := s.tasks.erase (taskKey pid deviceId taskId) },
        [.deleteBound deviceId bound])
  | .processDeInit pid deviceId, _ =>
    let tasks := s.tasksOf pid deviceId
    some ({ s with tasks := tasks.foldl (fun tasks entry => tasks.erase entry.1) s.tasks },
      tasks.map fun entry => .deleteBound deviceId entry.2)
  | .deleteBound deviceId bound, e =>
    match index n deviceId with
    | none => some (s, [])
    | some d => ((s.boundCount d).deleteBound bound e.ret).map fun counts =>
        ({ s with boundCount := Function.update s.boundCount d counts }, [])
  | .getUsage deviceId channel, _ =>
    match index n deviceId with
    | none => some (s, [])
    | some _ => (index timerCount channel).map fun _ => (s, [])

/-- What comes from outside: packets with any values, and the end of a process. -/
inductive Arrival where
  | taskInit (pid deviceId taskId bound : ℤ) (modelMemorySize : ℕ)
  | taskDeInit (pid deviceId taskId : ℤ)
  | processDeInit (pid deviceId : ℤ)
  | getUsage (deviceId channel : ℤ)

def Arrival.work : Arrival → Work
  | .taskInit pid deviceId taskId bound size => .taskInit pid deviceId taskId bound size
  | .taskDeInit pid deviceId taskId => .taskDeInit pid deviceId taskId
  | .processDeInit pid deviceId => .processDeInit pid deviceId
  | .getUsage deviceId channel => .getUsage deviceId channel

def system (n : ℕ) : Workers.System (State n) Work Circumstances Arrival :=
  ⟨exec, fun s a => some (s, [a.work])⟩

/-! ### Accesses inside the arrays -/

/-- The bound of a task that is initialised is a bound, and the channel of a usage request is one,
    when the request gets as far as the array. -/
def Meets (n : ℕ) : Work → Circumstances → Prop
  | .taskInit _ deviceId _ bound size, e =>
    (0 ≤ deviceId ∧ deviceId < n) → e.hasMemory size = true → e.blocked = false →
      0 ≤ bound ∧ bound < boundInfMax
  | .getUsage deviceId channel, _ =>
    (0 ≤ deviceId ∧ deviceId < n) → 0 ≤ channel ∧ channel < timerCount
  | _, _ => True

def IsBound (bound : ℤ) : Prop := 0 ≤ bound ∧ bound < boundInfMax

/-- A bound that is kept for later, in a call or in the store. -/
def Work.Kept : Work → Prop
  | .addTask _ _ _ bound => IsBound bound
  | .deleteBound _ bound => IsBound bound
  | _ => True

/-- Every bound that is kept is one. -/
structure Inv (s : State n) (work : List Work) : Prop where
  stored : ∀ entry ∈ s.tasks.entries, IsBound entry.2
  kept : ∀ w ∈ work, w.Kept

theorem index_isSome_iff {k : ℕ} {i : ℤ} : (index k i).isSome ↔ 0 ≤ i ∧ i < k := by
  rw [index]
  split <;> simp [*]

/-- The bound is read for the decision first; a counter is there for it exactly when it is one. -/
theorem acceptBound_isSome_iff (s : State n) (d : Fin n) (pid deviceId taskId bound ret : ℤ) :
    (s.acceptBound d pid deviceId taskId bound ret).isSome ↔ IsBound bound := by
  rw [IsBound, ← index_isSome_iff, State.acceptBound, BoundCount.canAcceptBound,
    BoundCount.addBound]
  cases index boundInfMax bound with
  | none => simp
  | some i =>
    simp only [Option.map_some, Option.isSome_some, iff_true]
    split
    · contradiction
    · rfl
    · rfl

/-- What `TaskInit` leaves behind is about the bound it was given. -/
theorem acceptBound_kept {s s' : State n} {d : Fin n} {pid deviceId taskId bound ret : ℤ}
    {new : List Work} (h : s.acceptBound d pid deviceId taskId bound ret = some (s', new)) :
    s'.tasks = s.tasks ∧ ∀ w ∈ new, w.Kept := by
  have hbound : IsBound bound := by
    rw [← acceptBound_isSome_iff s d pid deviceId taskId bound ret, h]
    rfl
  rw [State.acceptBound] at h
  split at h
  · cases h
  · cases h
    exact ⟨rfl, fun _ hw => absurd hw List.not_mem_nil⟩
  · split at h
    · cases h
    · cases h
      refine ⟨rfl, fun w hw => ?_⟩
      split at hw
      · rw [List.mem_singleton.mp hw]
        exact hbound
      · exact absurd hw List.not_mem_nil

/-- An item can be carried out exactly when it meets the condition: what is kept is never outside. -/
theorem exec_isSome_iff {s : State n} {w : Work} (hkept : w.Kept) (e : Circumstances) :
    (exec s w e).isSome ↔ Meets n w e := by
  cases w with
  | taskInit pid deviceId taskId bound size =>
    rw [exec, Meets, ← index_isSome_iff]
    cases index n deviceId with
    | none => simp
    | some d =>
      dsimp only
      split
      · next hskip =>
        simp only [Option.isSome_some, true_iff]
        intro _ hmem hblocked
        simp [hmem, hblocked] at hskip
      · next hgo =>
        rw [acceptBound_isSome_iff]
        simp only [not_or, Bool.not_eq_false, Bool.not_eq_true] at hgo
        simp [hgo.1, hgo.2, IsBound]
  | addTask pid deviceId taskId bound =>
    simp only [exec, Meets]
    split <;> simp
  | taskDeInit pid deviceId taskId =>
    simp only [exec, Meets]
    split <;> simp
  | processDeInit pid deviceId => simp [exec, Meets]
  | deleteBound deviceId bound =>
    simp only [exec, Meets, iff_true]
    cases index n deviceId with
    | none => simp
    | some d =>
      simp only [BoundCount.deleteBound, Option.isSome_map, index_isSome_iff]
      exact hkept
  | getUsage deviceId channel =>
    rw [exec, Meets, ← index_isSome_iff, ← index_isSome_iff]
    cases index n deviceId with
    | none => simp
    | some d => simp

theorem mem_foldl_erase {tasks : SortedMap TaskKey ℤ} {entry : TaskKey × ℤ}
    (l : List (TaskKey × ℤ))
    (h : entry ∈ (l.foldl (fun tasks e => tasks.erase e.1) tasks).entries) :
    entry ∈ tasks.entries := by
  induction l generalizing tasks with
  | nil => exact h
  | cons e rest ih => exact ((tasks.mem_erase e.1 entry).mp (ih h)).1

theorem Inv.exec {s s' : State n} {w : Work} {rest new : List Work} {e : Circumstances}
    (h : Inv s (w :: rest)) (hexec : exec s w e = some (s', new)) : Inv s' (new ++ rest) := by
  obtain ⟨hstored, hkept⟩ := h
  obtain ⟨hw, hrest⟩ := List.forall_mem_cons.mp hkept
  -- it is enough to look at the tasks and at what is left behind
  have hjoin : (∀ entry ∈ s'.tasks.entries, IsBound entry.2) → (∀ w ∈ new, w.Kept) →
      Inv s' (new ++ rest) := fun hs hn =>
    ⟨hs, fun w hmem => (List.mem_append.mp hmem).elim (hn w) (hrest w)⟩
  have hnil : ∀ w ∈ ([] : List Work), w.Kept := fun _ hmem => absurd hmem List.not_mem_nil
  cases w with
  | taskInit pid deviceId taskId bound size =>
    simp only [ArrayIndices.exec] at hexec
    split at hexec
    · cases hexec
      exact hjoin hstored hnil
    · split at hexec
      · cases hexec
        exact hjoin hstored hnil
      · obtain ⟨htasks, hnew⟩ := acceptBound_kept hexec
        exact hjoin (htasks ▸ hstored) hnew
  | addTask pid deviceId taskId bound =>
    simp only [ArrayIndices.exec] at hexec
    split at hexec
    · cases hexec
      exact hjoin hstored fun w hmem => List.mem_singleton.mp hmem ▸ hw
    · cases hexec
      refine hjoin (fun entry hentry => ?_) hnil
      rcases (s.tasks.mem_insert _ bound entry).mp hentry with rfl | ⟨hold, _⟩
      · exact hw
      · exact hstored entry hold
  | taskDeInit pid deviceId taskId =>
    simp only [ArrayIndices.exec] at hexec
    split at hexec
    · cases hexec
      exact hjoin hstored hnil
    · next bound hfind =>
      cases hexec
      refine hjoin (fun entry hentry => hstored entry ((s.tasks.mem_erase _ entry).mp hentry).1)
        fun w hmem => ?_
      rw [List.mem_singleton.mp hmem]
      exact hstored _ ((s.tasks.find?_eq_some _ bound).mp hfind)
  | processDeInit pid deviceId =>
    cases hexec
    refine hjoin (fun entry hentry => hstored entry (mem_foldl_erase _ hentry)) fun w hmem => ?_
    obtain ⟨entry, hentry, rfl⟩ := List.mem_map.mp hmem
    exact hstored entry (List.mem_filter.mp hentry).1
  | deleteBound deviceId bound =>
    simp only [ArrayIndices.exec] at hexec
    split at hexec
    · cases hexec
      exact hjoin hstored hnil
    · obtain ⟨counts, _, heq⟩ := Option.map_eq_some_iff.mp hexec
      cases heq
      exact hjoin hstored hnil
  | getUsage deviceId channel =>
    simp only [ArrayIndices.exec] at hexec
    split at hexec
    · cases hexec
      exact hjoin hstored hnil
    · obtain ⟨_, _, heq⟩ := Option.map_eq_some_iff.mp hexec
      cases heq
      exact hjoin hstored hnil

theorem Inv.perm {s : State n} {work work' : List Work} (hperm : work.Perm work')
    (h : Inv s work) : Inv s work' :=
  ⟨h.stored, fun w hw => h.kept w (hperm.mem_iff.mpr hw)⟩

theorem Inv.arrive {s : State n} {work : List Work} (h : Inv s work) (a : Arrival) :
    Inv s (a.work :: work) := by
  refine ⟨h.stored, List.forall_mem_cons.mpr ⟨?_, h.kept⟩⟩
  cases a <;> trivial

/-- Every state that packets with any values can lead to: an item can be carried out, with all its
    array accesses inside the arrays, exactly when it meets the condition. -/
theorem accesses_inside {n : ℕ} {c : Workers.Config (State n) Work}
    (hrun : Relation.ReflTransGen (Workers.Step (system n) (fun _ _ _ => True) fun _ _ => True)
      ⟨State.init n, []⟩ c) :
    ∀ w ∈ c.work, ∀ e, (exec c.shared w e).isSome ↔ Meets n w e := by
  have hinv : Inv c.shared c.work :=
    Workers.invariant (fun _ _ _ hperm h => h.perm hperm)
      (fun _ _ _ _ _ _ h _ hexec => h.exec hexec)
      (fun s work a s' new h _ harrive => by cases harrive; exact h.arrive a) hrun
      ⟨fun _ hentry => absurd hentry List.not_mem_nil, fun _ hw => absurd hw List.not_mem_nil⟩
  intro w hw e
  exact exec_isSome_iff (hinv.kept w hw) e

/-- A device with memory, and a driver that accepts. -/
def calmDevice : Circumstances := ⟨some (4096, 4096), false, 0⟩

/-- A task with bound 6 on the only device: it is entered, and its bound is released again. -/
theorem accesses_inside_one_task : ∃ c, Workers.play (system 1) (fun _ _ _ => True)
      (fun _ _ => True) ⟨State.init 1, []⟩
      [.arrive (.taskInit 7 0 1 6 4096), .work 0 calmDevice, .work 0 calmDevice,
        .arrive (.taskDeInit 7 0 1), .work 0 calmDevice] = some c ∧
    c.work = [.deleteBound 0 6] ∧ (∀ w ∈ c.work, ∀ e, (exec c.shared w e).isSome ↔ Meets 1 w e) := by
  have hplay : ∃ c, Workers.play (system 1) (fun _ _ _ => True) (fun _ _ => True)
      ⟨State.init 1, []⟩ [.arrive (.taskInit 7 0 1 6 4096), .work 0 calmDevice,
        .work 0 calmDevice, .arrive (.taskDeInit 7 0 1), .work 0 calmDevice] = some c ∧
      c.work = [.deleteBound 0 6] := ⟨_, rfl, by decide +kernel⟩
  obtain ⟨c, hc, hwork⟩ := hplay
  exact ⟨c, hc, hwork, accesses_inside (Workers.play_run hc)⟩

/-- A new service and two packets: a bound of 7, and the usage of channel 3. -/
theorem access_outside : exec (State.init 1) (.taskInit 7 0 1 7 4096) calmDevice = none ∧
    exec (State.init 1) (.getUsage 0 3) calmDevice = none := by
  decide

end DxRt.ArrayIndices
