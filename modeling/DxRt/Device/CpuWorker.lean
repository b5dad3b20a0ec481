import DxRt.Lib.Workers

/-! lib/cpu_handle_worker.cpp, lib/worker.cpp: the worker pool of a CPU task.

    `request` puts requests into a queue and, with dynamic threads, looks at the load: it adds a
    thread or asks one to stop, through a counter of stop requests. The workers take the requests
    one by one. A worker leaves the pool when it is dynamic and finds a stop request, when the pool
    is stopped, and after a request whose execution threw. `_dynamicThreads` keeps the threads that
    have left, and its size is taken for the number of dynamic threads.

    A step is one critical section of the lock, or the code between two of them. The threads that
    are not asleep and the callers are the work in progress. Times are in nanoseconds. Each request
    carries the number in which it was accepted; profiling and the destructor are left out. -/

namespace DxRt.CpuHandleWorker
variable {α : Type*}

def MIN_EACH_CPU_TASK_THREADS : ℕ := 1

def MAX_EACH_CPU_TASK_THREADS : ℕ := 6

/-- `_idleInterval` in milliseconds. -/
def idleInterval : ℤ := 500

abbrev Item (α : Type*) := ℕ × α

/-- `CpuHandle::_dynamicCpuThread` and what the constructor is given. -/
structure Settings where
  dynamicCpuThread : Bool
  bufferCount : ℕ
  deviceNum : ℕ
  numThreads : ℕ
  initDynamicThreads : ℕ

/-- The load and the times that `request` decides by; the interval is in milliseconds. -/
structure Control where
  loadHistory : List ℕ
  slidingSum : ℕ
  lastThreadControlTime : ℤ
  threadControlInterval : ℤ
  idleStartTime : ℤ

/-- Where a worker is: at the head of the loop, at the predicate of the wait, in `Run`, in
    `finishRequest`, or in `finishRequest` after an exception was caught. -/
inductive Phase (α : Type*) where
  | loop
  | predicate
  | run (x : Item α)
  | finish (x : Item α)
  | finishCaught (x : Item α)

/-- Where a caller of `request` is: behind the test of the stop flag, with the time it took then, or
    behind the lines in which it gave the lock away. -/
inductive Caller (α : Type*) where
  | checked (x : α) (now : ℤ)
  | yielded (x : α)

inductive Work (α : Type*) where
  | worker (isDynamic : Bool) (phase : Phase α)
  | caller (c : Caller α)

/-- The pool; `dynamicThreads` is the size of `_dynamicThreads`, `asleep` tells for every worker in
    the wait whether it is dynamic. `present` counts the workers that have not left, `accepted` and
    `processed` are the requests that were accepted and handed to `ProcessResponse`. -/
structure State (α : Type*) where
  settings : Settings
  control : Control
  queue : List (Item α)
  stop : Bool
  dynamicThreads : ℕ
  dynamicStopCnt : ℕ
  asleep : List Bool
  present : ℕ
  terminated : Bool
  accepted : List (Item α)
  processed : List (Item α)

/-- What the environment decides in a step: whether the execution throws, which sleeper is woken,
    and the time. -/
structure Circumstances where
  throws : Bool
  sleeper : ℕ
  now : ℤ

inductive Arrival (α : Type*) where
  | request (x : α) (now : ℤ)
  | wakeUp (sleeper : ℕ)
  | stop

/-- `duration_cast<milliseconds>`. -/
def milliseconds (duration : ℤ) : ℤ := duration.tdiv 1000000

/-- `load` is recorded; the history is limited. -/
def Control.record (c : Control) (limit load : ℕ) : Control :=
  let loadHistory := c.loadHistory ++ [load]
  let slidingSum := c.slidingSum + load
  if limit < loadHistory.length then
    { c with loadHistory := loadHistory.tail, slidingSum := slidingSum - loadHistory.headD 0 }
  else { c with loadHistory := loadHistory, slidingSum := slidingSum }

/-- The idle time begins, unless it has begun. -/
def Control.idleFrom (c : Control) (now : ℤ) : Control :=
  { c with idleStartTime := if c.idleStartTime = 0 then now else c.idleStartTime }

namespace State
variable {s s' : State α} {w : Work α} {work new rest : List (Work α)} {e : Circumstances}

/-- Workers that were woken look at the predicate. -/
def awake (sleepers : List Bool) : List (Work α) :=
  sleepers.map fun isDynamic => .worker isDynamic .predicate

/-- The sleeper that is woken by `notify_one`: any one, if there is one. -/
def notifyOne (s : State α) (sleeper : ℕ) : State α × List (Work α) :=
  match s.asleep[sleeper % s.asleep.length]? with
  | none => (s, [])
  | some isDynamic =>
    ({ s with asleep := s.asleep.eraseIdx (sleeper % s.asleep.length) }, awake [isDynamic])

def notifyAll (s : State α) : State α × List (Work α) := ({ s with asleep := [] }, awake s.asleep)

/-- `_queue.push` and `notify_one`, the end of `request`. -/
def accept (s : State α) (x : α) (e : Circumstances) : State α × List (Work α) :=
  { s with
    queue := s.queue ++ [(s.accepted.length, x)]
    accepted := s.accepted ++ [(s.accepted.length, x)] }.notifyOne e.sleeper

/-- `StartDynamicThread`, and the rest of `request`. -/
def startDynamicThread (s : State α) (x : α) (e : Circumstances) : State α × List (Work α) :=
  let r := { s with
    control := { s.control with threadControlInterval := 10, lastThreadControlTime := e.now }
    dynamicThreads := s.dynamicThreads + 1
    present := s.present + 1 }.accept x e
  (r.1, .worker true .loop :: r.2)

/-- A stop request for one dynamic thread; the lock is given away. -/
def stopDynamicThread (s : State α) (x : α) : State α × List (Work α) :=
  let r := { s with
    dynamicStopCnt := if s.dynamicStopCnt < s.dynamicThreads then s.dynamicStopCnt + 1
      else s.dynamicStopCnt }.notifyAll
  (r.1, .caller (.yielded x) :: r.2)

/-- The critical section of `request` with dynamic threads, up to its end or to the unlock. -/
def controlThreads (s : State α) (x : α) (now : ℤ) (e : Circumstances) : State α × List (Work α) :=
  let limit := s.settings.bufferCount * s.settings.deviceNum
  let numThreads := s.settings.numThreads
  let timeSinceLastAdd := milliseconds (now - s.control.lastThreadControlTime)
  let control := s.control.record limit s.queue.length
  let avgLoad := control.slidingSum / control.loadHistory.length
  let s := { s with control := control }
  if control.threadControlInterval ≤ timeSinceLastAdd ∧ control.loadHistory.length = limit then
    if s.dynamicThreads + numThreads < avgLoad then
      if s.dynamicThreads + numThreads < MAX_EACH_CPU_TASK_THREADS then s.startDynamicThread x e
      else s.accept x e
    else if avgLoad = 0 then
      let control := control.idleFrom e.now
      let s := { s with control := control }
      if idleInterval < milliseconds (now - control.idleStartTime) ∧ 0 < s.dynamicThreads ∧
          MIN_EACH_CPU_TASK_THREADS < s.dynamicThreads + numThreads then s.stopDynamicThread x
      else s.accept x e
    else { s with control := { control with threadControlInterval := 50 } }.accept x e
  else s.accept x e

/-- A step of a caller. -/
def call (s : State α) (e : Circumstances) : Caller α → State α × List (Work α)
  | .checked x now => if s.settings.dynamicCpuThread then s.controlThreads x now e else s.accept x e
  | .yielded x =>
    { s with control := { s.control with idleStartTime := 0, threadControlInterval := 10 } }.accept x e

/-- The worker leaves the pool. -/
def leave (s : State α) : State α × List (Work α) := ({ s with present := s.present - 1 }, [])

/-- The critical section of a worker: the predicate, `HandleThreadStop` and the first request. -/
def wait (s : State α) (isDynamic : Bool) : State α × List (Work α) :=
  if isDynamic = true ∧ 0 < s.dynamicStopCnt then
    { s with dynamicStopCnt := s.dynamicStopCnt - 1 }.leave
  else if s.queue = [] ∧ s.stop = false then ({ s with asleep := isDynamic :: s.asleep }, [])
  else if isDynamic = false ∧ s.stop = true then { s with queue := [] }.leave
  else match s.queue with
    | [] => (s, [.worker isDynamic .loop])
    | x :: queue => ({ s with queue := queue }, [.worker isDynamic (.run x)])

/-- A step of a worker. -/
def step (s : State α) (isDynamic : Bool) (e : Circumstances) : Phase α → State α × List (Work α)
  | .loop => if s.stop then s.leave else (s, [.worker isDynamic .predicate])
  | .predicate => s.wait isDynamic
  | .run x => (s, [.worker isDynamic (if e.throws then .finishCaught x else .finish x)])
  | .finish x =>
    let s := { s with processed := s.processed ++ [x] }
    if e.throws then (s, [.worker isDynamic (.finishCaught x)]) else (s, [.worker isDynamic .loop])
  | .finishCaught x =>
    let s := { s with processed := s.processed ++ [x] }
    -- what a dynamic thread does not catch ends the process; `DoThread` catches for the others
    if e.throws ∧ isDynamic then { s with terminated := true }.leave else s.leave

def exec (s : State α) (w : Work α) (e : Circumstances) : Option (State α × List (Work α)) :=
  if s.terminated then none
  else match w with
    | .worker isDynamic phase => some (s.step isDynamic e phase)
    | .caller c => some (s.call e c)

def arrive (s : State α) : Arrival α → Option (State α × List (Work α))
  | .request x now => some (s, if s.stop then [] else [.caller (.checked x now)])
  | .wakeUp sleeper => some (s.notifyOne sleeper)
  | .stop => some ({ s with stop := true }, [])

/-- The steps of the pool. -/
def system : Workers.System (State α) (Work α) Circumstances (Arrival α) := ⟨exec, arrive⟩

/-- The pool after `InitializeThreadCPUWorker`, at time `now`. -/
def start (settings : Settings) (now : ℤ) : Workers.Config (State α) (Work α) :=
  let dynamicThreads := if settings.dynamicCpuThread then settings.initDynamicThreads else 0
  ⟨{ settings := settings
     control := ⟨[], 0, now, 200, now⟩
     queue := []
     stop := false
     dynamicThreads := dynamicThreads
     dynamicStopCnt := 0
     asleep := []
     present := settings.numThreads + dynamicThreads
     terminated := false
     accepted := []
     processed := [] },
    List.replicate settings.numThreads (.worker false .loop) ++
      List.replicate dynamicThreads (.worker true .loop)⟩

/-- The condition on a step: `finishRequest` does not throw, a worker that leaves after an exception
    is a static one and not the last, no dynamic worker finds a stop request, and when a static one
    finds the pool stopped no request waits. -/
def Orderly (s : State α) (w : Work α) (e : Circumstances) : Prop :=
  match w with
  | .worker isDynamic .predicate => (isDynamic = true → s.dynamicStopCnt = 0) ∧
      (isDynamic = false → s.stop = true → s.queue = [])
  | .worker _ (.finish _) => e.throws = false
  | .worker isDynamic (.finishCaught _) => e.throws = false ∧ isDynamic = false ∧ 2 ≤ s.present
  | _ => True

/-! ### What a step keeps -/

end State

/-- The request that a worker holds. -/
def Work.holding : Work α → List (Item α)
  | .worker _ (.run x) | .worker _ (.finish x) | .worker _ (.finishCaught x) => [x]
  | _ => []

def Work.isWorker : Work α → Bool
  | .worker _ _ => true
  | .caller _ => false

def Work.isDynamic : Work α → Bool
  | .worker isDynamic _ => isDynamic
  | .caller _ => false

/-- A worker that looks at the queue before it sleeps. -/
def Work.isReady : Work α → Bool
  | .worker _ .loop | .worker _ .predicate => true
  | _ => false

namespace State
variable {s s' : State α} {w : Work α} {work new rest : List (Work α)} {e : Circumstances}
variable {woken left : List Bool} {x : Item α}

/-- Every accepted request is in the queue, with a worker, or processed. -/
structure Accounted (s : State α) (work : List (Work α)) : Prop where
  numbers : s.accepted.map Prod.fst = List.range s.accepted.length
  requests : (s.queue ++ (work.flatMap Work.holding ++ s.processed)).Perm s.accepted

/-- The workers that have not left are counted, and so are the dynamic ones among them. -/
structure Staffed (s : State α) (work : List (Work α)) : Prop where
  present : s.present = s.asleep.length + work.countP Work.isWorker
  someone : 0 < s.present
  dynamicThreads : s.dynamicThreads = s.asleep.countP id + work.countP Work.isDynamic

/-- Nobody sleeps, or for every request in the queue a worker will look at it. -/
def Attended (s : State α) (work : List (Work α)) : Prop :=
  s.asleep = [] ∨ s.queue.length ≤ work.countP Work.isReady

/-- The invariant; what concerns the workers holds until the stop. -/
structure Good (s : State α) (work : List (Work α)) : Prop where
  accounted : Accounted s work
  staffed : s.stop = false → Staffed s work
  attended : s.stop = false → Attended s work

theorem Good.perm {work' : List (Work α)} (h : Good s work) (hperm : work.Perm work') :
    Good s work' where
  accounted := ⟨h.accounted.numbers, ((((hperm.flatMap_right Work.holding).append_right
    s.processed).append_left s.queue).symm).trans h.accounted.requests⟩
  staffed hstop := ⟨hperm.countP_eq Work.isWorker ▸ (h.staffed hstop).present,
    (h.staffed hstop).someone, hperm.countP_eq Work.isDynamic ▸ (h.staffed hstop).dynamicThreads⟩
  attended hstop := (h.attended hstop).imp_right (hperm.countP_eq Work.isReady ▸ ·)

@[simp] theorem holding_awake (l : List Bool) : (awake l : List (Work α)).flatMap Work.holding = [] :=
  List.flatMap_eq_nil_iff.mpr fun _ hw => by
    obtain ⟨isDynamic, -, rfl⟩ := List.mem_map.mp hw
    rfl

@[simp] theorem isWorker_awake (l : List Bool) :
    (awake l : List (Work α)).countP Work.isWorker = l.length := by
  simp [awake, List.countP_map, Function.comp_def, Work.isWorker]

@[simp] theorem isDynamic_awake (l : List Bool) :
    (awake l : List (Work α)).countP Work.isDynamic = l.countP id := by
  rw [awake, List.countP_map]
  rfl

theorem Accounted.push (h : Accounted s work) (x : α) : Accounted { s with
    queue := s.queue ++ [(s.accepted.length, x)]
    accepted := s.accepted ++ [(s.accepted.length, x)] } work where
  numbers := by
    rw [List.map_append, h.numbers, List.length_append, List.length_singleton, List.range_succ]
    rfl
  requests := by
    rw [List.append_assoc]
    refine (List.Perm.append_left s.queue List.perm_append_comm).trans ?_
    rw [← List.append_assoc]
    exact h.requests.append_right _

/-- Sleepers are woken. -/
theorem Accounted.wake (h : Accounted s work) : Accounted { s with asleep := left } (awake woken ++ work) :=
  ⟨h.numbers, by simpa [List.flatMap_append] using h.requests⟩

theorem Staffed.wake (h : Staffed s work) (hwoken : s.asleep.Perm (woken ++ left)) :
    Staffed { s with asleep := left } (awake woken ++ work) where
  present := by
    have hlength := hwoken.length_eq
    have hpresent := h.present
    rw [List.length_append] at hlength
    rw [List.countP_append, isWorker_awake]
    change s.present = left.length + _
    omega
  someone := h.someone
  dynamicThreads := by
    have hcount := hwoken.countP_eq id
    have hdynamicThreads := h.dynamicThreads
    rw [List.countP_append] at hcount
    rw [List.countP_append, isDynamic_awake]
    change s.dynamicThreads = left.countP id + _
    omega

/-- A worker goes on; what it holds does not change. -/
theorem Good.advance {isDynamic : Bool} {phase phase' : Phase α}
    (h : Good s (.worker isDynamic phase :: rest))
    (hholding : (Work.worker isDynamic phase').holding = (Work.worker isDynamic phase).holding)
    (hready : (Work.worker isDynamic phase).isReady = true →
      (Work.worker isDynamic phase').isReady = true) : Good s (.worker isDynamic phase' :: rest) where
  accounted := ⟨h.accounted.numbers, by
    rw [List.flatMap_cons, hholding]
    exact h.accounted.requests⟩
  staffed hstop := ⟨(h.staffed hstop).present, (h.staffed hstop).someone,
    (h.staffed hstop).dynamicThreads⟩
  attended hstop := (h.attended hstop).imp_right fun hlength => hlength.trans (by
    rw [List.countP_cons, List.countP_cons]
    refine Nat.add_le_add_left ?_ _
    split
    case isTrue hold => rw [if_pos (hready hold)]
    case isFalse => exact Nat.zero_le _)

/-- A worker without a request ends its part. -/
theorem Accounted.gone (h : Accounted s (w :: rest)) (hnone : w.holding = []) : Accounted s rest := by
  have hrequests := h.requests
  rw [List.flatMap_cons, hnone] at hrequests
  exact ⟨h.numbers, hrequests⟩

/-- The first request is taken. -/
theorem Good.take {isDynamic : Bool} {queue : List (Item α)}
    (h : Good s (.worker isDynamic .predicate :: rest)) (hqueue : s.queue = x :: queue) :
    Good { s with queue := queue } (.worker isDynamic (.run x) :: rest) := by
  refine ⟨⟨h.accounted.numbers, ?_⟩, fun hstop => ⟨(h.staffed hstop).present,
    (h.staffed hstop).someone, (h.staffed hstop).dynamicThreads⟩, fun hstop =>
    (h.attended hstop).imp_right fun hready => ?_⟩
  · have hrequests := h.accounted.requests
    rw [hqueue] at hrequests
    exact List.perm_middle.trans hrequests
  · rw [hqueue, List.length_cons, List.countP_cons_of_pos rfl] at hready
    exact Nat.le_of_succ_le_succ hready

/-- The response of a request is processed, and the worker goes on. -/
theorem Good.finish {isDynamic : Bool} {phase : Phase α}
    (h : Good s (.worker isDynamic phase :: rest))
    (hholding : (Work.worker isDynamic phase).holding = [x]) :
    Good { s with processed := s.processed ++ [x] } (.worker isDynamic .loop :: rest) := by
  refine ⟨⟨h.accounted.numbers, ?_⟩, fun hstop => ⟨(h.staffed hstop).present,
    (h.staffed hstop).someone, (h.staffed hstop).dynamicThreads⟩, fun hstop =>
    (h.attended hstop).imp_right fun hready => hready.trans ?_⟩
  · have hrequests := h.accounted.requests
    rw [List.flatMap_cons, hholding] at hrequests
    refine (List.Perm.append_left s.queue ?_).trans hrequests
    change (rest.flatMap Work.holding ++ (s.processed ++ [x])).Perm _
    rw [← List.append_assoc]
    exact List.perm_append_comm
  · rw [List.countP_cons, List.countP_cons]
    refine Nat.add_le_add_left ?_ _
    change _ ≤ 1
    split
    · exact le_rfl
    · exact Nat.zero_le _

/-- A static worker that is not the last leaves the pool, at the head of the loop. -/
theorem Good.leave (h : Good s (.worker false (.finishCaught x) :: rest)) (hothers : 2 ≤ s.present) :
    Good { s with processed := s.processed ++ [x] }.leave.1 rest := by
  have hfinish := h.finish rfl
  refine ⟨⟨(hfinish.accounted.gone rfl).numbers, (hfinish.accounted.gone rfl).requests⟩,
    fun hstop => ?_, h.attended⟩
  obtain ⟨hpresent, -, hdynamicThreads⟩ := h.staffed hstop
  rw [List.countP_cons_of_pos rfl] at hpresent
  rw [List.countP_cons_of_neg Bool.false_ne_true] at hdynamicThreads
  refine ⟨?_, Nat.sub_pos_of_lt hothers, hdynamicThreads⟩
  change s.present - 1 = s.asleep.length + _
  omega

instance (s : State α) : ∀ w e, Decidable (Orderly s w e)
  | .worker _ .predicate, _ => inferInstanceAs (Decidable (_ ∧ _))
  | .worker _ (.finish _), _ => inferInstanceAs (Decidable (_ = _))
  | .worker _ (.finishCaught _), _ => inferInstanceAs (Decidable (_ ∧ _))
  | .worker _ .loop, _ => isTrue trivial
  | .worker _ (.run _), _ => isTrue trivial
  | .caller _, _ => isTrue trivial

abbrev Move := Workers.Choice Circumstances (Arrival ℕ)

/-- The next step of the `i`-th thread; the execution does not throw, or throws. -/
def go (i : ℕ) : Move := .work i ⟨false, 0, 0⟩

end State
end DxRt.CpuHandleWorker
