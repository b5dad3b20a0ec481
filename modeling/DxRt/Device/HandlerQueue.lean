import DxRt.Lib.Run

/-! lib/include/dxrt/handler_que_template.h: `HandlerQueueThread`.

    The workers of a queue take the items in turn and call the handler. Everything about the queue
    happens under its lock, and whoever pushes wakes all sleepers, so an item that waits has the
    attention of every worker. But a handler that throws ends its worker: the exception is caught
    outside of the loop. Each item carries the number of its push. -/

namespace DxRt.HandlerQueueThread
variable {α : Type*} {n : ℕ}

/-- An item with its number. -/
abbrev Item (α : Type*) := ℕ × α

/-- Where a worker is in `ThreadWork`: at the head of the loop, at the predicate of the wait, asleep
    in it, with an item but not yet in the handler, in the handler, or out of the loop. -/
inductive Worker (α : Type*) where
  | loop
  | predicate
  | asleep
  | took (x : Item α)
  | handling (x : Item α)
  | ended
  deriving DecidableEq

/-- The queue with its `n` workers; `pushed`, `taken` and `handed` are the items that were pushed,
    taken from the queue and given to the handler, in that order. -/
structure State (α : Type*) (n : ℕ) where
  que : List (Item α)
  stop : Bool
  workers : Fin n → Worker α
  pushed : List (Item α)
  taken : List (Item α)
  handed : List (Item α)

/-- What happens next; a worker whose handler returns or throws. -/
inductive Actor (α : Type*) (n : ℕ) where
  | pushWork (x : α)
  | worker (i : Fin n) (throws : Bool)
  | signal
  | wakeUp (i : Fin n)
  | stop

def Worker.wake : Worker α → Worker α
  | .asleep => .predicate
  | w => w

def Worker.live : Worker α → Bool
  | .ended => false
  | _ => true

namespace State
variable {s t : State α n} {i j : Fin n} {x : Item α}

def set (s : State α n) (i : Fin n) (w : Worker α) : State α n :=
  { s with workers := Function.update s.workers i w }

/-- `notify_all`. -/
def notifyAll (s : State α n) : State α n := { s with workers := fun i => (s.workers i).wake }

def pushWork (s : State α n) (x : α) : State α n :=
  { s with
    que := s.que ++ [(s.pushed.length, x)]
    pushed := s.pushed ++ [(s.pushed.length, x)] }.notifyAll

/-- A step of a worker: one critical section of the lock, or the code between two of them. -/
def work (s : State α n) (i : Fin n) (throws : Bool) : State α n :=
  match s.workers i with
  | .loop => s.set i (if s.stop then .ended else .predicate)
  | .predicate =>
    if s.stop then s.set i .ended
    else match s.que with
      | [] => s.set i .asleep
      | x :: que => { s with que := que, taken := s.taken ++ [x] }.set i (.took x)
  | .took x => { s with handed := s.handed ++ [x] }.set i (.handling x)
  -- `DoThread` catches what the handler throws; after it the worker is over
  | .handling _ => s.set i (if throws || s.stop then .ended else .loop)
  | .asleep | .ended => s

def exec (s : State α n) : Actor α n → State α n
  | .pushWork x => s.pushWork x
  | .worker i throws => s.work i throws
  | .signal => s.notifyAll
  | .wakeUp i => s.set i (s.workers i).wake
  | .stop => { s with stop := true }

/-- The queue after `Start`, with the items that were pushed before. -/
def init (n : ℕ) (items : List α) : State α n where
  que := items.zipIdx.map Prod.swap
  stop := false
  workers _ := .loop
  pushed := items.zipIdx.map Prod.swap
  taken := []
  handed := []

def Step (s t : State α n) : Prop := ∃ a, t = s.exec a

/-- A step in which no handler throws, unless the queue is stopped. -/
def QuietStep (s t : State α n) : Prop :=
  ∃ a, t = s.exec a ∧ ∀ i x, a = .worker i true → s.workers i = .handling x → s.stop = true

/-- The workers that have not ended. -/
def live (s : State α n) : Finset (Fin n) := Finset.univ.filter fun i => (s.workers i).live = true

/-! ### Order -/

/-- The items are taken in the order of their pushes, which differ in their numbers; what a worker
    has taken and not handed over is its own; nobody sleeps while there is something to take. -/
structure Ordered (s : State α n) : Prop where
  pushed : s.pushed = s.taken ++ s.que
  numbers : s.pushed.map Prod.fst = List.range s.pushed.length
  nodup : s.handed.Nodup
  handed : ∀ x ∈ s.handed, x ∈ s.taken
  took : ∀ i x, s.workers i = .took x → x ∈ s.taken ∧ x ∉ s.handed
  apart : ∀ i j x, s.workers i = .took x → s.workers j = .took x → i = j
  awake : s.que ≠ [] → ∀ i, s.workers i ≠ .asleep

theorem Ordered.nodup_pushed (h : Ordered s) : s.pushed.Nodup :=
  List.Nodup.of_map Prod.fst (h.numbers ▸ List.nodup_range)

theorem ordered_init (items : List α) : Ordered (init n items) where
  pushed := rfl
  numbers := by simp [init, Function.comp_def, List.range_eq_range']
  nodup := List.nodup_nil
  handed _ h := absurd h List.not_mem_nil
  took _ _ h := nomatch h
  apart _ _ _ h := nomatch h
  awake _ _ h := nomatch h

theorem set_workers (w : Worker α) (j : Fin n) :
    (s.set i w).workers j = if j = i then w else s.workers j := by
  simp [set, Function.update_apply]

/-- A worker goes on, and has taken nothing new. -/
theorem Ordered.set (h : Ordered s) {w : Worker α} (htook : ∀ x, w = .took x → s.workers i = .took x)
    (hasleep : w = .asleep → s.que = []) : Ordered (s.set i w) := by
  have hold : ∀ {j x}, (s.set i w).workers j = .took x → s.workers j = .took x := by
    intro j x hj
    rw [set_workers] at hj
    split_ifs at hj with hji
    · exact hji ▸ htook x hj
    · exact hj
  refine ⟨h.pushed, h.numbers, h.nodup, h.handed, fun j x hj => h.took j x (hold hj),
    fun j k x hj hk => h.apart j k x (hold hj) (hold hk), fun hque j hj => ?_⟩
  rw [set_workers] at hj
  split_ifs at hj with hji
  · exact hque (hasleep hj)
  · exact h.awake hque j hj

theorem wake_took {w : Worker α} : w.wake = .took x ↔ w = .took x := by
  cases w <;> simp [Worker.wake]

theorem wake_asleep (w : Worker α) : w.wake ≠ .asleep := by
  cases w <;> simp [Worker.wake]

theorem Ordered.notifyAll (h : Ordered s) : Ordered s.notifyAll where
  pushed := h.pushed
  numbers := h.numbers
  nodup := h.nodup
  handed := h.handed
  took i x hi := h.took i x (wake_took.mp hi)
  apart i j x hi hj := h.apart i j x (wake_took.mp hi) (wake_took.mp hj)
  awake _ _ := wake_asleep _

theorem Ordered.pushWork (h : Ordered s) (x : α) : Ordered (s.pushWork x) where
  pushed := by
    change s.pushed ++ _ = s.taken ++ (s.que ++ _)
    rw [h.pushed, List.append_assoc]
  numbers := by
    change (s.pushed ++ [_]).map Prod.fst = List.range (s.pushed ++ [_]).length
    rw [List.map_append, h.numbers, List.length_append, List.length_singleton, List.range_succ]
    rfl
  nodup := h.nodup
  handed := h.handed
  took i y hi := h.took i y (wake_took.mp hi)
  apart i j y hi hj := h.apart i j y (wake_took.mp hi) (wake_took.mp hj)
  awake _ _ := wake_asleep _

/-- A worker takes the first item. -/
theorem Ordered.take (h : Ordered s) {que : List (Item α)} (hque : s.que = x :: que) :
    Ordered ({ s with que := que, taken := s.taken ++ [x] }.set i (.took x)) := by
  have hnodup := h.nodup_pushed
  rw [h.pushed, hque, List.nodup_append] at hnodup
  have hnew : x ∉ s.taken := fun hmem => hnodup.2.2 x hmem x List.mem_cons_self rfl
  have hold : ∀ {j y}, j ≠ i → ({ s with que := que, taken := s.taken ++ [x] }.set i
      (.took x)).workers j = .took y → s.workers j = .took y := by
    intro j y hji hj
    rwa [set_workers, if_neg hji] at hj
  have hself : ∀ {y}, ({ s with que := que, taken := s.taken ++ [x] }.set i
      (.took x)).workers i = .took y → y = x := by
    intro y hi
    rw [set_workers, if_pos rfl] at hi
    exact (Worker.took.inj hi).symm
  refine ⟨?_, h.numbers, h.nodup, fun y hy => List.mem_append_left _ (h.handed y hy), ?_, ?_, ?_⟩
  · change s.pushed = s.taken ++ [x] ++ que
    rw [h.pushed, hque, List.append_assoc]
    rfl
  · intro j y hj
    by_cases hji : j = i
    · subst hji
      rw [hself hj]
      exact ⟨List.mem_append_right _ List.mem_cons_self, fun hmem => hnew (h.handed x hmem)⟩
    · have htook := h.took j y (hold hji hj)
      exact ⟨List.mem_append_left _ htook.1, htook.2⟩
  · intro j k y hj hk
    by_cases hji : j = i <;> by_cases hki : k = i
    · rw [hji, hki]
    · subst hji
      exact absurd (hself hj ▸ (h.took k y (hold hki hk)).1) hnew
    · subst hki
      exact absurd (hself hk ▸ (h.took j y (hold hji hj)).1) hnew
    · exact h.apart j k y (hold hji hj) (hold hki hk)
  · intro _ j hj
    rw [set_workers] at hj
    split_ifs at hj
    exact h.awake (by simp [hque]) j hj

/-- A worker calls the handler. -/
theorem Ordered.hand (h : Ordered s) (htook : s.workers i = .took x) :
    Ordered ({ s with handed := s.handed ++ [x] }.set i (.handling x)) := by
  have hx := h.took i x htook
  have hold : ∀ {j y}, ({ s with handed := s.handed ++ [x] }.set i
      (.handling x)).workers j = .took y → j ≠ i ∧ s.workers j = .took y := by
    intro j y hj
    rw [set_workers] at hj
    split_ifs at hj with hji
    exact ⟨hji, hj⟩
  refine ⟨h.pushed, h.numbers, ?_, ?_, ?_, ?_, ?_⟩
  · rw [State.set, List.nodup_append]
    refine ⟨h.nodup, List.nodup_singleton x, ?_⟩
    rintro y hy z hz rfl
    exact hx.2 (List.mem_singleton.mp hz ▸ hy)
  · intro y hy
    rcases List.mem_append.mp hy with hy | hy
    · exact h.handed y hy
    · exact List.mem_singleton.mp hy ▸ hx.1
  · intro j y hj
    obtain ⟨hji, hj⟩ := hold hj
    refine ⟨(h.took j y hj).1, fun hmem => ?_⟩
    rcases List.mem_append.mp hmem with hmem | hmem
    · exact (h.took j y hj).2 hmem
    · exact hji (h.apart j i x (List.mem_singleton.mp hmem ▸ hj) htook)
  · intro j k y hj hk
    exact h.apart j k y (hold hj).2 (hold hk).2
  · intro hque j hj
    rw [set_workers] at hj
    split_ifs at hj
    exact h.awake hque j hj

theorem Ordered.work (h : Ordered s) (i : Fin n) (throws : Bool) : Ordered (s.work i throws) := by
  cases hworker : s.workers i with
  | loop =>
    simp only [State.work, hworker]
    exact h.set (by split_ifs <;> nofun) (by split_ifs <;> nofun)
  | predicate =>
    simp only [State.work, hworker]
    split_ifs
    · exact h.set nofun nofun
    · cases hque : s.que with
      | nil => exact h.set nofun fun _ => hque
      | cons x que => exact h.take hque
  | took x =>
    simp only [State.work, hworker]
    exact h.hand hworker
  | handling x =>
    simp only [State.work, hworker]
    exact h.set (by split_ifs <;> nofun) (by split_ifs <;> nofun)
  | asleep =>
    simp only [State.work, hworker]
    exact h
  | ended =>
    simp only [State.work, hworker]
    exact h

theorem Ordered.exec (h : Ordered s) (a : Actor α n) : Ordered (s.exec a) := by
  cases a with
  | pushWork x => exact h.pushWork x
  | worker i throws => exact h.work i throws
  | signal => exact h.notifyAll
  | wakeUp i => exact h.set (fun x hw => wake_took.mp hw) fun hw => absurd hw (wake_asleep _)
  | stop => exact ⟨h.pushed, h.numbers, h.nodup, h.handed, h.took, h.apart, h.awake⟩

/-! ### The workers -/

/-- While the queue is not stopped, every worker is there. -/
def AllLive (s : State α n) : Prop := s.stop = false → ∀ i, (s.workers i).live = true

theorem live_wake (w : Worker α) : w.wake.live = w.live := by cases w <;> rfl

theorem AllLive.set (h : AllLive s) {w : Worker α} (hw : s.stop = false → w.live = true) :
    AllLive (s.set i w) := by
  intro hstop j
  rw [set_workers]
  split_ifs
  · exact hw hstop
  · exact h hstop j

theorem AllLive.notifyAll (h : AllLive s) : AllLive s.notifyAll := by
  intro hstop i
  exact (live_wake _).trans (h hstop i)

theorem AllLive.work (h : AllLive s) {throws : Bool}
    (hquiet : throws = true → ∀ x, s.workers i = .handling x → s.stop = true) :
    AllLive (s.work i throws) := by
  cases hworker : s.workers i with
  | loop =>
    simp only [State.work, hworker]
    exact h.set fun hstop => by simp [hstop, Worker.live]
  | predicate =>
    simp only [State.work, hworker]
    split_ifs with hstop
    · exact h.set fun hrunning => absurd hstop (by simp [hrunning])
    · cases s.que with
      | nil => exact h.set fun _ => rfl
      | cons x que => exact AllLive.set (fun hrunning j => h hrunning j) fun _ => rfl
  | took x =>
    simp only [State.work, hworker]
    exact AllLive.set (fun hrunning j => h hrunning j) fun _ => rfl
  | handling x =>
    simp only [State.work, hworker]
    refine h.set fun hrunning => ?_
    have hreturns : throws = false := by
      by_contra hthrows
      have hstop := hquiet (Bool.not_eq_false _ ▸ hthrows) x hworker
      simp [hrunning] at hstop
    simp [hreturns, hrunning, Worker.live]
  | asleep =>
    simp only [State.work, hworker]
    exact h
  | ended =>
    simp only [State.work, hworker]
    exact h

theorem AllLive.exec (h : AllLive s) {a : Actor α n}
    (hquiet : ∀ i x, a = .worker i true → s.workers i = .handling x → s.stop = true) :
    AllLive (s.exec a) := by
  cases a with
  | pushWork x =>
    exact AllLive.notifyAll (s := { s with
      que := s.que ++ [(s.pushed.length, x)]
      pushed := s.pushed ++ [(s.pushed.length, x)] }) h
  | worker i throws => exact h.work fun hthrows x hx => hquiet i x (hthrows ▸ rfl) hx
  | signal => exact h.notifyAll
  | wakeUp i => exact h.set fun hstop => (live_wake _).trans (h hstop i)
  | stop => exact fun hstop => nomatch hstop

/-- The items come in order and at most once, in every run; as long as no handler has thrown, all
    workers are there to take them. -/
theorem handler_queue (items : List α) (s : State α n) :
    (Relation.ReflTransGen Step (init n items) s →
      s.taken <+: s.pushed ∧ s.handed.Nodup ∧ (∀ x ∈ s.handed, x ∈ s.taken) ∧
        (s.que ≠ [] → ∀ i, s.workers i ≠ .asleep)) ∧
    (Relation.ReflTransGen QuietStep (init n items) s → s.stop = false →
      s.live.card = n ∧ (0 < n → ¬ (s.que ≠ [] ∧ s.live = ∅))) := by
  constructor
  · intro hrun
    have h : Ordered s :=
      Run.invariant (fun _ _ ⟨a, ht⟩ h => ht ▸ h.exec a) hrun (ordered_init items)
    exact ⟨⟨s.que, h.pushed.symm⟩, h.nodup, h.handed, h.awake⟩
  · intro hrun hstop
    have h : AllLive s := Run.invariant (fun _ _ ⟨_, ht, hquiet⟩ h => ht ▸ h.exec hquiet) hrun
      fun _ _ => rfl
    have hall : s.live = Finset.univ := Finset.filter_true_of_mem fun i _ => h hstop i
    have hcard : s.live.card = n := by rw [hall, Finset.card_univ, Fintype.card_fin]
    refine ⟨hcard, fun hn hempty => hn.ne ?_⟩
    rw [← hcard, hempty.2, Finset.card_empty]

/-- An item is pushed to a queue of two workers and taken. -/
theorem handler_queue_two_workers : ((((init 2 [] : State ℕ 2).exec (.pushWork 7)).exec
    (.worker 0 false)).exec (.worker 0 false)).live.card = 2 := by
  refine ((handler_queue [] _).2 (.tail (.tail (.tail .refl ⟨_, rfl, ?_⟩) ⟨_, rfl, ?_⟩)
    ⟨_, rfl, ?_⟩) rfl).1
  · exact fun i x ha => nomatch ha
  · exact fun i x ha => nomatch ha
  · exact fun i x ha => nomatch ha

/-- The handler of the only worker throws; nobody takes the next item. -/
theorem queue_without_workers : ∃ s : State ℕ 1, Relation.ReflTransGen Step (init 1 [7]) s ∧
    s.stop = false ∧ s.que ≠ [] ∧ s.live = ∅ := by
  refine ⟨((((((init 1 [7]).exec (.worker 0 false)).exec (.worker 0 false)).exec
    (.worker 0 false)).exec (.worker 0 true)).exec (.pushWork 8)), ?_, rfl, nofun, by decide⟩
  exact .tail (.tail (.tail (.tail (.tail .refl ⟨_, rfl⟩) ⟨_, rfl⟩) ⟨_, rfl⟩) ⟨_, rfl⟩) ⟨_, rfl⟩

end State
end DxRt.HandlerQueueThread
