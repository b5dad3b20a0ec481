import DxRt.Lib.Machine
import DxRt.Lib.Ring

/-! lib/user_event_store.cpp: `UserEventStore`, the named intervals an application has measured.

    An interval is open from `Start` to `End` of its name; the latest intervals are kept in a ring.
    The statistics are in floating point and left out. -/

namespace DxRt

/-- `PROFILER_BUFFER_SIZE`, with and without `USE_PROFILER`. -/
def PROFILER_BUFFER_SIZE (useProfiler : Bool) : ℕ := if useProfiler then 2000 else 1

theorem profilerBufferSize_pos (useProfiler : Bool) : 1 ≤ PROFILER_BUFFER_SIZE useProfiler := by
  cases useProfiler <;> decide

structure UserEvent where
  name : String
  start : ℕ
  finish : ℕ
  deriving DecidableEq, Inhabited

structure UserEventStore where
  events : ℕ → UserEvent
  currentIdx : ℕ
  count : ℕ
  enabled : Bool
  pendingStarts : String → Option ℕ

namespace UserEventStore

def init : UserEventStore := ⟨fun _ => default, 0, 0, false, fun _ => none⟩

/-- `Start`; the clock shows `now`. An interval that is open already starts again. -/
def start (s : UserEventStore) (eventName : String) (now : ℕ) : UserEventStore :=
  if s.enabled then
    { s with pendingStarts := Function.update s.pendingStarts eventName (some now) }
  else s

/-- `End`, of a ring of `size` slots. -/
def stop (size : ℕ) (s : UserEventStore) (eventName : String) (now : ℕ) : UserEventStore :=
  if s.enabled then
    match s.pendingStarts eventName with
    | none => s
    | some startTime =>
      { s with
        pendingStarts := Function.update s.pendingStarts eventName none
        events := Function.update s.events s.currentIdx ⟨eventName, startTime, now⟩
        currentIdx := (s.currentIdx + 1) % size
        count := if s.count < size then s.count + 1 else s.count }
  else s

def clear (s : UserEventStore) : UserEventStore := { init with enabled := s.enabled }

def getEvents (size : ℕ) (s : UserEventStore) : List UserEvent :=
  if s.count < size then (List.range s.count).map s.events
  else (List.range size).map fun i => s.events ((s.currentIdx + i) % size)

inductive Call where
  | start (eventName : String) (now : ℕ)
  | stop (eventName : String) (now : ℕ)
  | clear
  | setEnabled (enabled : Bool)
  | getEvents

/-- A call, with the events it returns. -/
def call (size : ℕ) (s : UserEventStore) : Call → UserEventStore × List UserEvent
  | .start eventName now => (s.start eventName now, [])
  | .stop eventName now => (s.stop size eventName now, [])
  | .clear => (s.clear, [])
  | .setEnabled enabled => ({ s with enabled := enabled }, [])
  | .getEvents => (s, s.getEvents size)

/-! ### The recorder -/

/-- What the store is for: the intervals that have ended, latest first, and the open ones. -/
structure Recorder where
  pending : String → Option ℕ
  ended : List UserEvent
  enabled : Bool

def Recorder.init : Recorder := ⟨fun _ => none, [], false⟩

def Recorder.stop (r : Recorder) (eventName : String) (now : ℕ) : Recorder :=
  match r.pending eventName with
  | none => r
  | some startTime =>
    { r with
      pending := Function.update r.pending eventName none
      ended := ⟨eventName, startTime, now⟩ :: r.ended }

/-- The recorder returns the latest `size` intervals, the oldest first. -/
def Recorder.call (size : ℕ) (r : Recorder) : Call → Recorder × List UserEvent
  | .start eventName now =>
    (if r.enabled then { r with pending := Function.update r.pending eventName (some now) } else r,
      [])
  | .stop eventName now => (if r.enabled then r.stop eventName now else r, [])
  | .clear => ({ Recorder.init with enabled := r.enabled }, [])
  | .setEnabled enabled => ({ r with enabled := enabled }, [])
  | .getEvents => (r, (r.ended.take size).reverse)

variable {size : ℕ} {s : UserEventStore} {r : Recorder}

/-- The store represents the recorder. -/
structure Represents (size : ℕ) (s : UserEventStore) (r : Recorder) : Prop where
  pending : s.pendingStarts = r.pending
  enabled : s.enabled = r.enabled
  count : s.count = min size r.ended.length
  currentIdx : s.currentIdx = r.ended.length % size
  holds : Ring.Holds size s.currentIdx s.events r.ended

theorem represents_init (size : ℕ) (enabled : Bool) :
    Represents size { init with enabled := enabled } { Recorder.init with enabled := enabled } where
  pending := rfl
  enabled := rfl
  count := by simp [init, Recorder.init]
  currentIdx := by simp [init, Recorder.init]
  holds := .nil

theorem Represents.stop (h : Represents size s r) (hsize : 1 ≤ size) (eventName : String) (now : ℕ)
    (henabled : s.enabled = true) : Represents size (s.stop size eventName now)
      (r.stop eventName now) := by
  have hidx : s.currentIdx < size := by
    rw [h.currentIdx]
    exact Nat.mod_lt _ hsize
  rw [UserEventStore.stop, if_pos henabled, Recorder.stop, h.pending]
  cases r.pending eventName with
  | none => exact h
  | some startTime =>
    refine ⟨rfl, h.enabled, ?_, ?_, h.holds.write hidx _⟩
    · have hcount := h.count
      dsimp only [List.length_cons]
      split_ifs <;> omega
    · dsimp only [List.length_cons]
      rw [h.currentIdx, Nat.mod_add_mod]

theorem Represents.getEvents (h : Represents size s r) :
    s.getEvents size = (r.ended.take size).reverse := by
  rw [UserEventStore.getEvents, h.count]
  split_ifs with hlt
  · -- nothing has been overwritten
    have hshort : r.ended.length < size := by omega
    have hread := h.holds.read (le_of_lt hshort) (le_refl _)
    rw [Nat.min_eq_right hshort.le, List.take_of_length_le hshort.le]
    rw [List.take_length, h.currentIdx, Nat.mod_eq_of_lt hshort] at hread
    rw [← hread]
    refine List.map_congr_left fun i hi => ?_
    rw [Nat.add_sub_cancel_left, Nat.add_mod_left,
      Nat.mod_eq_of_lt ((List.mem_range.mp hi).trans hshort)]
  · have hread := h.holds.read (le_refl size) (by omega)
    rw [Nat.add_sub_cancel] at hread
    exact hread

/-- Every call keeps the representation and returns the events of the recorder. -/
theorem refines (hsize : 1 ≤ size) :
    Machine.Refines (call size) (Recorder.call size) (Represents size) := by
  intro s r c h
  cases c with
  | start eventName now =>
    refine ⟨?_, rfl⟩
    simp only [call, Recorder.call, UserEventStore.start, h.enabled]
    split_ifs
    · exact ⟨by rw [h.pending], rfl, h.count, h.currentIdx, h.holds⟩
    · exact h
  | stop eventName now =>
    refine ⟨?_, rfl⟩
    simp only [call, Recorder.call]
    cases henabled : r.enabled with
    | true => exact h.stop hsize eventName now (h.enabled.trans henabled)
    | false =>
      rw [UserEventStore.stop, h.enabled, henabled]
      exact h
  | clear =>
    refine ⟨?_, rfl⟩
    simp only [call, Recorder.call, clear, h.enabled]
    exact represents_init size r.enabled
  | setEnabled enabled => exact ⟨⟨h.pending, rfl, h.count, h.currentIdx, h.holds⟩, rfl⟩
  | getEvents => exact ⟨h, h.getEvents⟩

/-- In every sequence of calls `GetEvents` returns the latest intervals in order, as many as the
    ring has slots. -/
theorem answers_eq_recorder (useProfiler : Bool) (calls : List Call) :
    Machine.answers (call (PROFILER_BUFFER_SIZE useProfiler)) init calls =
      Machine.answers (Recorder.call (PROFILER_BUFFER_SIZE useProfiler)) Recorder.init calls :=
  (refines (profilerBufferSize_pos useProfiler)).answers (represents_init _ false) calls

/-! ### The clock -/

def Call.time : Call → Option ℕ
  | .start _ now | .stop _ now => some now
  | .clear | .setEnabled _ | .getEvents => none

/-- An interval that ends earlier stands first, and intervals of one name do not overlap. -/
def Before (e e' : UserEvent) : Prop :=
  e.finish ≤ e'.finish ∧ (e.name = e'.name → e.finish ≤ e'.start)

/-- What holds of a recorder when the clock shows `now`. -/
structure Timely (now : ℕ) (r : Recorder) : Prop where
  ended : ∀ e ∈ r.ended, e.start ≤ e.finish ∧ e.finish ≤ now
  pending : ∀ eventName startTime, r.pending eventName = some startTime →
    startTime ≤ now ∧ ∀ e ∈ r.ended, e.name = eventName → e.finish ≤ startTime
  order : r.ended.Pairwise fun later earlier => Before earlier later

theorem timely_init (now : ℕ) (enabled : Bool) :
    Timely now { Recorder.init with enabled := enabled } where
  ended := List.forall_mem_nil _
  pending _ _ h := absurd h (Option.some_ne_none _).symm
  order := List.Pairwise.nil

theorem Timely.later {now now' : ℕ} (h : Timely now r) (hle : now ≤ now') : Timely now' r where
  ended e he := ⟨(h.ended e he).1, (h.ended e he).2.trans hle⟩
  pending eventName startTime hp :=
    ⟨(h.pending eventName startTime hp).1.trans hle, (h.pending eventName startTime hp).2⟩
  order := h.order

theorem Timely.start {now : ℕ} (h : Timely now r) (eventName : String) :
    Timely now { r with pending := Function.update r.pending eventName (some now) } where
  ended := h.ended
  pending name startTime hp := by
    dsimp only at hp
    by_cases hname : name = eventName
    · subst hname
      rw [Function.update_self] at hp
      obtain rfl := Option.some.inj hp
      exact ⟨le_refl _, fun e he _ => (h.ended e he).2⟩
    · rw [Function.update_of_ne hname] at hp
      exact h.pending name startTime hp
  order := h.order

theorem Timely.stop {now : ℕ} (h : Timely now r) (eventName : String) :
    Timely now (r.stop eventName now) := by
  rw [Recorder.stop]
  cases hp : r.pending eventName with
  | none => exact h
  | some startTime =>
    obtain ⟨hstart, hafter⟩ := h.pending eventName startTime hp
    refine ⟨?_, ?_, ?_⟩
    · intro e he
      rcases List.mem_cons.mp he with rfl | he
      · exact ⟨hstart, le_refl _⟩
      · exact h.ended e he
    · intro name startTime' hp'
      dsimp only at hp'
      by_cases hname : name = eventName
      · rw [hname, Function.update_self] at hp'
        exact absurd hp' (Option.some_ne_none _).symm
      · rw [Function.update_of_ne hname] at hp'
        obtain ⟨hstart', hafter'⟩ := h.pending name startTime' hp'
        refine ⟨hstart', fun e he heq => ?_⟩
        rcases List.mem_cons.mp he with rfl | he
        · exact absurd heq.symm hname
        · exact hafter' e he heq
    · exact List.pairwise_cons.mpr ⟨fun e he => ⟨(h.ended e he).2, hafter e he⟩, h.order⟩

/-- A call at a later time. -/
theorem Timely.call {now : ℕ} (h : Timely now r) (size : ℕ) (c : Call) (hc : ∀ t ∈ c.time, now ≤ t) :
    Timely (c.time.getD now) (r.call size c).1 := by
  cases c with
  | start eventName t =>
    have hlater : Timely t r := h.later (hc t rfl)
    simp only [Recorder.call, Call.time, Option.getD_some]
    split_ifs
    · exact hlater.start eventName
    · exact hlater
  | stop eventName t =>
    have hlater : Timely t r := h.later (hc t rfl)
    simp only [Recorder.call, Call.time, Option.getD_some]
    split_ifs
    · exact hlater.stop eventName
    · exact hlater
  | clear => exact timely_init now r.enabled
  | setEnabled enabled => exact ⟨h.ended, h.pending, h.order⟩
  | getEvents => exact h

/-- With a clock that does not run backwards a recorder stays timely. -/
theorem Timely.final {now : ℕ} (h : Timely now r) (size : ℕ) {calls : List Call}
    (hclock : (now :: calls.filterMap Call.time).Pairwise (· ≤ ·)) :
    ∃ t, Timely t (Machine.final (Recorder.call size) r calls) := by
  induction calls generalizing now r with
  | nil => exact ⟨now, h⟩
  | cons c calls ih =>
    obtain ⟨hle, hrest⟩ := List.pairwise_cons.mp hclock
    cases hc : c.time with
    | none =>
      rw [List.filterMap_cons_none hc] at hclock
      have hcall := h.call size c (by simp [hc])
      rw [hc] at hcall
      exact ih hcall hclock
    | some t =>
      rw [List.filterMap_cons_some hc] at hle hrest
      have hcall := h.call size c (by simpa [hc] using hle t List.mem_cons_self)
      rw [hc] at hcall
      exact ih hcall hrest

/-- With a clock that does not run backwards, the events that `GetEvents` returns after any calls
    are ordered by their ends, and intervals of one name do not overlap. -/
theorem getEvents_disjoint (useProfiler : Bool) {calls : List Call}
    (hclock : (calls.filterMap Call.time).Pairwise (· ≤ ·)) :
    let events := getEvents (PROFILER_BUFFER_SIZE useProfiler)
      (Machine.final (call (PROFILER_BUFFER_SIZE useProfiler)) init calls)
    events.Pairwise Before ∧ ∀ e ∈ events, e.start ≤ e.finish := by
  have hrep := (refines (profilerBufferSize_pos useProfiler)).final
    (represents_init (PROFILER_BUFFER_SIZE useProfiler) false) calls
  have hstart : Timely 0 Recorder.init := timely_init 0 false
  obtain ⟨t, htimely⟩ := hstart.final (PROFILER_BUFFER_SIZE useProfiler)
    (List.pairwise_cons.mpr ⟨fun t _ => Nat.zero_le t, hclock⟩)
  intro events
  have hevents : events = _ := hrep.getEvents
  rw [hevents]
  constructor
  · rw [List.pairwise_reverse]
    exact htimely.order.sublist (List.take_sublist _ _)
  · intro e he
    exact (htimely.ended e (List.mem_of_mem_take (List.mem_reverse.mp he))).1

/-- Two intervals of one name. -/
def twice : List Call :=
  [.setEnabled true, .start "step" 1, .stop "step" 4, .start "step" 5, .stop "step" 9]

theorem getEvents_disjoint_twice :
    let events := getEvents (PROFILER_BUFFER_SIZE true)
      (Machine.final (call (PROFILER_BUFFER_SIZE true)) init twice)
    events.Pairwise Before ∧ ∀ e ∈ events, e.start ≤ e.finish :=
  getEvents_disjoint true (by decide)

end UserEventStore
end DxRt
