import DxRt.Lib.Run

/-! lib/dynamic_ipc/protocol/ipc_packet.cpp: `getNextIPCPacketSequenceId`.

    The ids come from one atomic counter of 32 bits, which starts at 1. A caller that finds it
    negative or zero tries to set it back to 1, if no other caller was in between, and takes the id
    1; otherwise it takes another number, and 1 if that is not positive either. The counter is set
    to 1, and not to 2: the next caller takes the id 1 again. A step is one atomic operation, or the
    return of a call. -/

namespace DxRt.SequenceIds

/-- The value of `atomic<int32_t>` after an addition. -/
def wrap (x : ℤ) : ℤ := x.bmod (2 ^ 32)

def normalizeSequenceId (sequenceId : ℤ) : ℤ := if sequenceId ≤ 0 then 1 else sequenceId

/-- Where a caller is in `getNextIPCPacketSequenceId`. -/
inductive Caller where
  | idle
  | compareExchange (expected : ℤ)
  | fetchAdd
  | returns (id : ℤ)
  deriving DecidableEq

/-- `packetSequenceIdCounter` with the callers; `completed` are the ids of the calls that have
    returned, latest first. -/
structure State where
  counter : ℤ
  callers : ℕ → Caller
  completed : List ℤ

variable {s t : State} {i : ℕ} {l : List ℤ}

def init : State := ⟨1, fun _ => .idle, []⟩

def State.set (s : State) (i : ℕ) (c : Caller) : State :=
  { s with callers := Function.update s.callers i c }

/-- `fetch_add(1)`. -/
def State.add (s : State) : State := { s with counter := wrap (s.counter + 1) }

/-- The next step of caller `i`; an idle one calls. -/
def exec (s : State) (i : ℕ) : State :=
  match s.callers i with
  | .idle =>
    let nextSequence := s.counter
    if 0 < nextSequence then s.add.set i (.returns nextSequence)
    else s.add.set i (.compareExchange (nextSequence + 1))
  | .compareExchange expected =>
    if s.counter = expected then { s with counter := 1 }.set i (.returns 1)
    else s.set i .fetchAdd
  | .fetchAdd =>
    let nextSequence := s.counter
    s.add.set i (.returns (normalizeSequenceId nextSequence))
  | .returns id => { s with completed := id :: s.completed }.set i .idle

def Step (s t : State) : Prop := ∃ i, t = exec s i

/-- A step that does not begin a call on a counter that is not positive. -/
def UnwrappedStep (s t : State) : Prop :=
  ∃ i, t = exec s i ∧ (s.callers i = .idle → 0 < s.counter)

theorem UnwrappedStep.of (i : ℕ) (h : s.callers i = .idle → 0 < s.counter) :
    UnwrappedStep s (exec s i) := ⟨i, rfl, h⟩

/-- No id is returned twice within `2 ^ 31 - 2` consecutive calls. -/
def NoEarlyRepeat (completed : List ℤ) : Prop :=
  ∀ m n, m < n → n - m < 2 ^ 31 - 2 → ∀ id, completed[m]? = some id → completed[n]? ≠ some id

/-- An id that caller `i` is about to return, or one that was returned. -/
def State.Issued (s : State) (id : ℤ) : Prop := id ∈ s.completed ∨ ∃ i, s.callers i = .returns id

/-! ### The ids are positive -/

theorem normalizeSequenceId_pos (n : ℤ) : 0 < normalizeSequenceId n := by
  rw [normalizeSequenceId]
  split_ifs with h <;> omega

theorem returns_set {c : Caller} {j : ℕ} {id : ℤ} (h : (s.set i c).callers j = .returns id) :
    c = .returns id ∨ s.callers j = .returns id := by
  by_cases hj : j = i
  · subst hj
    exact Or.inl (by simpa [State.set] using h)
  · exact Or.inr (by simpa [State.set, hj] using h)

/-- What a caller does is to take an id, which is positive, to go on without one, or to return. -/
theorem exec_cases (s : State) (i : ℕ) :
    (∃ id counter, 0 < id ∧ (∀ id', s.callers i ≠ .returns id') ∧
      exec s i = { s with counter := counter }.set i (.returns id)) ∨
    (∃ c counter, (∀ id, c ≠ .returns id) ∧ (∀ id', s.callers i ≠ .returns id') ∧
      exec s i = { s with counter := counter }.set i c) ∨
    ∃ id, s.callers i = .returns id ∧
      exec s i = { s with completed := id :: s.completed }.set i .idle := by
  cases hcaller : s.callers i with
  | idle =>
    simp only [exec, hcaller]
    split_ifs with hpos
    · exact Or.inl ⟨s.counter, _, hpos, by simp, rfl⟩
    · exact Or.inr (Or.inl ⟨.compareExchange (s.counter + 1), _, nofun, by simp, rfl⟩)
  | compareExchange expected =>
    simp only [exec, hcaller]
    split_ifs with heq
    · exact Or.inl ⟨1, _, one_pos, by simp, rfl⟩
    · exact Or.inr (Or.inl ⟨.fetchAdd, s.counter, nofun, nofun, rfl⟩)
  | fetchAdd =>
    simp only [exec, hcaller]
    exact Or.inl ⟨_, _, normalizeSequenceId_pos s.counter, nofun, rfl⟩
  | returns id =>
    simp only [exec, hcaller]
    exact Or.inr (Or.inr ⟨id, rfl, rfl⟩)

/-- Every id that was issued is positive. -/
def Positive (s : State) : Prop := ∀ id, s.Issued id → 0 < id

theorem Positive.exec (h : Positive s) (i : ℕ) : Positive (exec s i) := by
  intro id hissued
  rcases exec_cases s i with ⟨id', counter, hpos, -, heq⟩ | ⟨c, counter, hc, -, heq⟩ | ⟨id', hid, heq⟩
  · rw [heq] at hissued
    rcases hissued with hmem | ⟨j, hj⟩
    · exact h id (Or.inl hmem)
    · rcases returns_set hj with hnew | hold
      · rwa [← Caller.returns.inj hnew]
      · exact h id (Or.inr ⟨j, hold⟩)
  · rw [heq] at hissued
    rcases hissued with hmem | ⟨j, hj⟩
    · exact h id (Or.inl hmem)
    · rcases returns_set hj with hnew | hold
      · exact absurd hnew (hc id)
      · exact h id (Or.inr ⟨j, hold⟩)
  · rw [heq] at hissued
    rcases hissued with hmem | ⟨j, hj⟩
    · rcases List.mem_cons.mp hmem with rfl | hmem
      · exact h id (Or.inr ⟨i, hid⟩)
      · exact h id (Or.inl hmem)
    · rcases returns_set hj with hnew | hold
      · cases hnew
      · exact h id (Or.inr ⟨j, hold⟩)

theorem positive_init : Positive init := by
  rintro id (hmem | ⟨i, hi⟩)
  · exact absurd hmem List.not_mem_nil
  · cases hi

theorem ids_positive (hrun : Relation.ReflTransGen Step init s) : Positive s :=
  Run.invariant (fun _ _ ⟨i, ht⟩ h => ht ▸ h.exec i) hrun positive_init

/-! ### Before the counter wraps -/

theorem wrap_bounds (x : ℤ) : -2 ^ 31 ≤ wrap x ∧ wrap x < 2 ^ 31 := by
  have hle := Int.le_bmod (x := x) (m := 2 ^ 32) (by norm_num)
  have hlt := Int.bmod_lt (x := x) (m := 2 ^ 32) (by norm_num)
  norm_num at hle hlt
  exact ⟨hle, hlt⟩

/-- After an addition the counter is greater, unless it has become negative. -/
theorem wrap_succ {x : ℤ} (hx : -2 ^ 31 ≤ x) (hx' : x < 2 ^ 31) (h : 0 < wrap (x + 1)) :
    wrap (x + 1) = x + 1 := by
  rw [wrap, Int.bmod_def] at h ⊢
  split_ifs at h ⊢ <;> omega

/-- The ids in the hands of the callers are different from each other and from those returned, and
    smaller than a positive counter. -/
structure Fresh (s : State) : Prop where
  bounds : -2 ^ 31 ≤ s.counter ∧ s.counter < 2 ^ 31
  caller : ∀ i, s.callers i = .idle ∨ ∃ id, s.callers i = .returns id
  nodup : s.completed.Nodup
  new : ∀ i id, s.callers i = .returns id → id ∉ s.completed
  apart : ∀ i j id, s.callers i = .returns id → s.callers j = .returns id → i = j
  below : 0 < s.counter → ∀ id, s.Issued id → id < s.counter

theorem fresh_init : Fresh init where
  bounds := by decide
  caller _ := Or.inl rfl
  nodup := List.nodup_nil
  new _ _ h := nomatch h
  apart _ _ _ h := nomatch h
  below _ id hissued := by
    rcases hissued with hmem | ⟨i, hi⟩
    · exact absurd hmem List.not_mem_nil
    · cases hi

theorem Fresh.exec (h : Fresh s) (hunwrapped : s.callers i = .idle → 0 < s.counter) :
    Fresh (exec s i) := by
  rcases h.caller i with hidle | ⟨id, hid⟩
  · have hpos := hunwrapped hidle
    have hbelow := h.below hpos
    have hexec : SequenceIds.exec s i = s.add.set i (.returns s.counter) := by
      simp [SequenceIds.exec, hidle, hpos]
    have hnew : ¬ s.Issued s.counter := fun hissued => (hbelow _ hissued).false
    rw [hexec]
    refine ⟨wrap_bounds _, fun j => ?_, h.nodup, fun j id hj hmem => ?_, fun j k id hj hk => ?_,
      fun hpos' id hissued => ?_⟩
    · by_cases hj : j = i
      · exact Or.inr ⟨s.counter, by simp [State.set, hj]⟩
      · simpa [State.set, State.add, hj] using h.caller j
    · rcases returns_set hj with hcounter | hold
      · exact hnew (Or.inl (Caller.returns.inj hcounter ▸ hmem))
      · exact h.new j id hold hmem
    · by_cases hji : j = i <;> by_cases hki : k = i
      · rw [hji, hki]
      · subst hji
        have hj : s.counter = id := by simpa [State.set] using hj
        have hk : s.callers k = .returns id := by simpa [State.set, State.add, hki] using hk
        exact absurd (Or.inr ⟨k, hj ▸ hk⟩) hnew
      · subst hki
        have hk : s.counter = id := by simpa [State.set] using hk
        have hj : s.callers j = .returns id := by simpa [State.set, State.add, hji] using hj
        exact absurd (Or.inr ⟨j, hk ▸ hj⟩) hnew
      · exact h.apart j k id (by simpa [State.set, State.add, hji] using hj)
          (by simpa [State.set, State.add, hki] using hk)
    · have hsucc : (s.add.set i (.returns s.counter)).counter = s.counter + 1 :=
        wrap_succ h.bounds.1 h.bounds.2 hpos'
      rw [hsucc]
      rcases hissued with hmem | ⟨j, hj⟩
      · exact (hbelow id (Or.inl hmem)).trans (lt_add_one _)
      · rcases returns_set hj with hcounter | hold
        · rw [← Caller.returns.inj hcounter]
          exact lt_add_one _
        · exact (hbelow id (Or.inr ⟨j, hold⟩)).trans (lt_add_one _)
  · have hexec : SequenceIds.exec s i = { s with completed := id :: s.completed }.set i .idle := by
      simp [SequenceIds.exec, hid]
    rw [hexec]
    have hother : ∀ {j id'}, ({ s with completed := id :: s.completed }.set i .idle).callers j =
        .returns id' → j ≠ i ∧ s.callers j = .returns id' := by
      intro j id' hj
      by_cases hji : j = i
      · subst hji
        simp [State.set] at hj
      · exact ⟨hji, by simpa [State.set, hji] using hj⟩
    refine ⟨h.bounds, fun j => ?_, List.nodup_cons.mpr ⟨h.new i id hid, h.nodup⟩, fun j id' hj hmem => ?_,
      fun j k id' hj hk => h.apart j k id' (hother hj).2 (hother hk).2, fun hpos id' hissued => ?_⟩
    · by_cases hj : j = i
      · exact Or.inl (by simp [State.set, hj])
      · simpa [State.set, hj] using h.caller j
    · obtain ⟨hji, hj⟩ := hother hj
      rcases List.mem_cons.mp hmem with heq | hmem
      · exact hji (h.apart j i id (heq ▸ hj) hid)
      · exact h.new j id' hj hmem
    · rcases hissued with hmem | ⟨j, hj⟩
      · rcases List.mem_cons.mp hmem with rfl | hmem
        · exact h.below hpos id' (Or.inr ⟨i, hid⟩)
        · exact h.below hpos id' (Or.inl hmem)
      · exact h.below hpos id' (Or.inr ⟨j, (hother hj).2⟩)

theorem noEarlyRepeat_of_nodup {completed : List ℤ} (h : completed.Nodup) :
    NoEarlyRepeat completed := by
  intro m n hmn _ id hm hn
  have hlt := (List.getElem?_eq_some_iff.mp hn).1
  exact List.nodup_iff_getElem?_ne_getElem?.mp h m n hmn hlt (hm.trans hn.symm)

/-- The ids are positive in every run, and all different while no call finds the counter wrapped. -/
theorem sequence_ids (s : State) :
    (Relation.ReflTransGen Step init s → ∀ id ∈ s.completed, 0 < id) ∧
    (Relation.ReflTransGen UnwrappedStep init s → NoEarlyRepeat s.completed) := by
  constructor
  · intro hrun id hmem
    exact ids_positive hrun id (Or.inl hmem)
  · intro hrun
    have hfresh : Fresh s := Run.invariant (fun _ _ ⟨_, ht, hunwrapped⟩ h => ht ▸ h.exec hunwrapped)
      hrun fresh_init
    exact noEarlyRepeat_of_nodup hfresh.nodup

/-- Three callers at once, of which the first calls again before the second has returned. -/
theorem sequence_ids_three_callers :
    ([0, 1, 2, 2, 0, 0, 1, 0].foldl exec init).completed = [4, 2, 1, 3] ∧
      NoEarlyRepeat [4, 2, 1, 3] := by
  have hrun : Relation.ReflTransGen UnwrappedStep init
      ([0, 1, 2, 2, 0, 0, 1, 0].foldl exec init) := by
    refine .tail (.tail (.tail (.tail (.tail (.tail (.tail (.tail .refl (.of 0 ?_)) (.of 1 ?_))
      (.of 2 ?_)) (.of 2 ?_)) (.of 0 ?_)) (.of 0 ?_)) (.of 1 ?_)) (.of 0 ?_)
    all_goals exact fun _ => by decide
  have hids : ([0, 1, 2, 2, 0, 0, 1, 0].foldl exec init).completed = [4, 2, 1, 3] := by decide
  exact ⟨hids, hids ▸ (sequence_ids _).2 hrun⟩

/-! ### At the wrap -/

/-- A call that nobody interrupts. -/
theorem exec_call (hidle : s.callers i = .idle) (hpos : 0 < s.counter) :
    exec (exec s i) i = { s with counter := wrap (s.counter + 1), completed := s.counter :: s.completed } := by
  have hfirst : exec s i = s.add.set i (.returns s.counter) := by simp [exec, hidle, hpos]
  rw [hfirst]
  simp [exec, State.set, State.add, ← hidle]

theorem call_run (hidle : s.callers i = .idle) (hpos : 0 < s.counter) :
    Relation.ReflTransGen Step s
      { s with counter := wrap (s.counter + 1), completed := s.counter :: s.completed } :=
  exec_call hidle hpos ▸ .tail (.single ⟨i, rfl⟩) ⟨i, rfl⟩

/-- Calls one after the other, up to the last positive number. -/
theorem calls_run (n : ℕ) (hn : n < 2 ^ 31) : ∃ completed,
    Relation.ReflTransGen Step init ⟨wrap (n + 1), fun _ => .idle, completed⟩ := by
  induction n with
  | zero => exact ⟨[], .refl⟩
  | succ n ih =>
    obtain ⟨completed, hrun⟩ := ih (by omega)
    have hcounter : wrap (n + 1) = n + 1 := by
      rw [wrap, Int.bmod_def]
      split_ifs <;> omega
    rw [hcounter] at hrun
    refine ⟨(n + 1) :: completed, hrun.trans ?_⟩
    have hcall := call_run (s := ⟨n + 1, fun _ => .idle, completed⟩) (i := 0) rfl (by
      change (0 : ℤ) < n + 1
      omega)
    simpa using hcall

/-- The call that finds the counter wrapped takes the id 1, and so does the next one. -/
theorem repeats_one : ¬ ∀ s, Relation.ReflTransGen Step init s → NoEarlyRepeat s.completed := by
  intro hall
  obtain ⟨completed, hrun⟩ := calls_run (2 ^ 31 - 1) (by norm_num)
  have hwrapped : wrap ((2 ^ 31 - 1 : ℕ) + 1) = -2 ^ 31 := by decide
  rw [hwrapped] at hrun
  have hrepair : Relation.ReflTransGen Step ⟨-2 ^ 31, fun _ => .idle, completed⟩
      ⟨1, fun _ => .idle, 1 :: completed⟩ := by
    refine .tail (.tail (.single ⟨0, rfl⟩) ⟨0, rfl⟩) ⟨0, ?_⟩
    simp [exec, State.set, State.add, wrap]
  have hnext := call_run (s := ⟨1, fun _ => .idle, 1 :: completed⟩) (i := 0) rfl one_pos
  exact hall _ ((hrun.trans hrepair).trans hnext) 0 1 one_pos (by norm_num) 1 rfl rfl

end DxRt.SequenceIds
