import DxRt.Lib.SortedMap

/-! lib/dxrt_service/schedule_service.cpp, scheduler_service.h: the request queues.

    The three schedulers differ only in the queue each keeps per device: a FIFO queue, one queue
    per process visited in turn, or a heap ordered by task time. `push` is `pushRequest`, `pop` is
    the part of `schedule` before `doInference`. What the rest of the scheduler needs to know about
    a queue is its `contents`, a multiset of (process, request) pairs. -/

namespace DxRt

/-- Process id and request id. -/
abbrev Key := ℤ × ℤ

/-- The scheduler in use: `FIFOSchedulerService`, `RoundRobinSchedulerService` or
    `SJFSchedulerService`. -/
inductive Policy where | fifo | roundRobin | sjf
  deriving DecidableEq

/-! ### Round robin -/

/-- `_proc_maps[deviceId]` and `_next_proc[deviceId]`. -/
structure RoundRobin where
  procMap : SortedMap ℤ (List ℤ)
  nextProc : ℤ
  deriving DecidableEq

namespace RoundRobin

def push (q : RoundRobin) (procId reqId : ℤ) : RoundRobin :=
  { q with procMap := q.procMap.insert procId ((q.procMap.find? procId).getD [] ++ [reqId]) }

/-- The key of `begin()`, 0 for an empty map. -/
def first (procMap : SortedMap ℤ (List ℤ)) : ℤ :=
  match procMap.entries with
  | [] => 0
  | it :: _ => it.1

theorem first_cases (m : SortedMap ℤ (List ℤ)) : first m = 0 ∨ m.contains (first m) = true := by
  rw [first]
  split
  · exact Or.inl rfl
  · next it _ hent =>
    exact Or.inr ((SortedMap.contains_iff _ _).mpr
      ⟨it.2, (m.find?_eq_some _ _).mpr (hent ▸ List.mem_cons_self ..)⟩)

/-- The cursor is 0 when unset; a cursor that is no key falls back to `begin()`, but the request is
    still taken to be of the process the cursor names. -/
def pop (q : RoundRobin) : Option Key × RoundRobin :=
  match q.procMap.entries with
  | [] => (none, q)
  | begin :: _ =>
    let currentProc := if q.nextProc = 0 then begin.1 else q.nextProc
    let q := { q with nextProc := currentProc }
    let it :=
      match q.procMap.find? currentProc with
      | some reqs => (currentProc, reqs)
      | none => begin
    match it.2 with
    | [] => (none, q)
    | reqId :: reqs =>
      let procMap := if reqs.isEmpty then q.procMap.erase it.1 else q.procMap.insert it.1 reqs
      let nextProc :=
        match q.procMap.next? it.1 with
        | some next => next.1
        | none => first procMap
      (some (currentProc, reqId), ⟨procMap, nextProc⟩)

/-- No process has an empty queue, and the cursor is unset or names a process. -/
structure Wf (q : RoundRobin) : Prop where
  nonempty : ∀ e ∈ q.procMap.entries, e.2 ≠ []
  cursor : q.nextProc = 0 ∨ q.procMap.contains q.nextProc = true

def contents (q : RoundRobin) : Multiset Key :=
  (q.procMap.entries.flatMap fun e => e.2.map (Prod.mk e.1) : List Key)

theorem contents_insert (m : SortedMap ℤ (List ℤ)) (c procId : ℤ) (reqs : List ℤ) :
    contents ⟨m.insert procId reqs, c⟩ =
      (reqs.map (Prod.mk procId) : Multiset Key) + contents ⟨m.erase procId, c⟩ :=
  Multiset.coe_eq_coe.mpr ((m.insert_perm procId reqs).flatMap_right _)

theorem contents_find? {m : SortedMap ℤ (List ℤ)} {c procId : ℤ} {reqs : List ℤ}
    (h : m.find? procId = some reqs) :
    contents ⟨m, c⟩ = (reqs.map (Prod.mk procId) : Multiset Key) + contents ⟨m.erase procId, c⟩ :=
  Multiset.coe_eq_coe.mpr ((SortedMap.find?_perm h).flatMap_right _)

theorem contents_push (q : RoundRobin) (procId reqId : ℤ) :
    (q.push procId reqId).contents = (procId, reqId) ::ₘ q.contents := by
  have hold : q.contents = (((q.procMap.find? procId).getD []).map (Prod.mk procId) : Multiset Key)
      + contents ⟨q.procMap.erase procId, q.nextProc⟩ := by
    cases hfind : q.procMap.find? procId with
    | none => rw [SortedMap.erase_of_find?_none hfind]; simp
    | some reqs => exact contents_find? hfind
  rw [push, contents_insert, hold, List.map_append, ← Multiset.coe_add, add_right_comm]
  simp [Multiset.singleton_add, add_comm]

theorem wf_push {q : RoundRobin} (h : q.Wf) (procId reqId : ℤ) : (q.push procId reqId).Wf := by
  refine ⟨fun e he => ?_, ?_⟩
  · rcases (q.procMap.mem_insert _ _ e).mp he with rfl | ⟨he, _⟩
    · simp
    · exact h.nonempty e he
  · rcases h.cursor with h0 | hc
    · exact Or.inl h0
    · refine Or.inr ?_
      rw [push, SortedMap.contains, SortedMap.find?_insert]
      split_ifs
      · rfl
      · exact hc

/-- With a well-formed cursor the request popped is one of the process the cursor names. -/
theorem pop_cases {q : RoundRobin} (h : q.Wf) :
    q.pop = (none, q) ∧ q.contents = 0 ∨
      ∃ k q', q.pop = (some k, q') ∧ q'.Wf ∧ q.contents = k ::ₘ q'.contents := by
  rw [pop]
  cases hent : q.procMap.entries with
  | nil => exact Or.inl ⟨rfl, by simp [contents, hent]⟩
  | cons begin rest =>
    refine Or.inr ?_
    simp only
    set current := if q.nextProc = 0 then begin.1 else q.nextProc with hcurrent
    have hmem : q.procMap.contains current = true := by
      rw [hcurrent]
      split_ifs with h0
      · exact (SortedMap.contains_iff _ _).mpr
          ⟨begin.2, (q.procMap.find?_eq_some _ _).mpr (by simp [hent])⟩
      · exact h.cursor.resolve_left h0
    obtain ⟨reqs, hfind⟩ := (SortedMap.contains_iff _ _).mp hmem
    have hentry := (q.procMap.find?_eq_some _ _).mp hfind
    simp only [hfind]
    cases reqs with
    | nil => exact absurd rfl (h.nonempty _ hentry)
    | cons reqId reqs =>
      have hsub : ∀ e, e ∈ q.procMap.entries → e.1 ≠ current →
          e ∈ (if reqs.isEmpty then q.procMap.erase current
            else q.procMap.insert current reqs).entries := by
        intro e he hne
        split_ifs
        · exact (q.procMap.mem_erase _ _).mpr ⟨he, hne⟩
        · exact (q.procMap.mem_insert _ _ _).mpr (Or.inr ⟨he, hne⟩)
      refine ⟨_, _, rfl, ⟨?_, ?_⟩, ?_⟩
      · intro e he
        simp only at he
        split_ifs at he with hempty
        · exact h.nonempty e ((q.procMap.mem_erase _ _).mp he).1
        · rcases (q.procMap.mem_insert _ _ _).mp he with rfl | ⟨he, _⟩
          · simpa using hempty
          · exact h.nonempty e he
      · simp only
        cases hnext : q.procMap.next? current with
        | some next =>
          have hin := List.mem_of_mem_head? hnext
          obtain ⟨hin, hlt⟩ := List.mem_filter.mp hin
          have hne : next.1 ≠ current := (of_decide_eq_true hlt).ne'
          exact Or.inr ((SortedMap.contains_iff _ _).mpr
            ⟨next.2, (SortedMap.find?_eq_some _ _ _).mpr (hsub next hin hne)⟩)
        | none => exact first_cases _
      · have hq : q.contents = _ := contents_find? (c := q.nextProc) hfind
        rw [hq]
        split_ifs with hempty
        · rw [List.isEmpty_iff.mp hempty]
          simp [contents]
        · rw [contents_insert]
          simp [contents]

end RoundRobin

/-! ### Shortest job first -/

/-- `request_elem`. -/
structure RequestElem where
  requestId : ℤ
  procId : ℤ
  time : ℕ
  deriving DecidableEq

namespace RequestElem

/-- `operator<`: the element that is served later is the smaller one. -/
def lt (a b : RequestElem) : Bool :=
  if a.time = b.time then decide (b.requestId < a.requestId) else decide (b.time < a.time)

def key (e : RequestElem) : Key := (e.procId, e.requestId)

/-- Service order: time first, then request id. -/
def order (e : RequestElem) : ℕ ×ₗ ℤ := toLex (e.time, e.requestId)

theorem lt_iff (a b : RequestElem) : a.lt b = true ↔ b.order < a.order := by
  rw [lt, order, order, Prod.Lex.toLex_lt_toLex]
  split_ifs with h
  · simp [h]
  · simp [Ne.symm h]

/-- What `top()` may return: the elements that are smaller than no other. Elements of different
    processes with the same time and request id are tied; the heap decides between them. -/
def tops (l : List RequestElem) : List RequestElem :=
  l.filter fun e => l.all fun x => !e.lt x

/-- `top()` and `pop()`, with the tie resolved by `tie`. -/
def pop (l : List RequestElem) (tie : ℕ) : Option Key × List RequestElem :=
  match (tops l)[tie % (tops l).length]? with
  | none => (none, l)
  | some e => (some e.key, l.erase e)

theorem tops_ne_nil {l : List RequestElem} (h : l ≠ []) : tops l ≠ [] := by
  cases hmin : l.argmin order with
  | none => exact absurd (List.argmin_eq_none.mp hmin) h
  | some e =>
    have hmem : e ∈ tops l := by
      refine List.mem_filter.mpr ⟨List.argmin_mem hmin, List.all_eq_true.mpr fun x hx => ?_⟩
      have hle := List.le_of_mem_argmin hx hmin
      rw [Bool.not_eq_true', Bool.eq_false_iff, Ne, lt_iff]
      exact not_lt_of_ge hle
    exact List.ne_nil_of_mem hmem

theorem pop_cases (l : List RequestElem) (tie : ℕ) :
    pop l tie = (none, l) ∧ l = [] ∨
      ∃ e ∈ tops l, pop l tie = (some e.key, l.erase e) ∧ l.Perm (e :: l.erase e) := by
  rw [pop]
  cases hl : l with
  | nil => exact Or.inl ⟨rfl, rfl⟩
  | cons x rest =>
    rw [← hl]
    refine Or.inr ?_
    have hlen : 0 < (tops l).length :=
      List.length_pos_iff.mpr (tops_ne_nil (by rw [hl]; exact List.cons_ne_nil _ _))
    have hlt : tie % (tops l).length < (tops l).length := Nat.mod_lt _ hlen
    have htop : (tops l)[tie % (tops l).length] ∈ tops l := List.getElem_mem hlt
    refine ⟨_, htop, ?_, List.perm_cons_erase (List.mem_filter.mp htop).1⟩
    rw [List.getElem?_eq_getElem hlt]

end RequestElem

/-! ### One queue per device -/

/-- The queue a scheduler keeps for one device. -/
def DeviceQueue : Policy → Type
  | .fifo => List Key
  | .roundRobin => { q : RoundRobin // q.Wf }
  | .sjf => List RequestElem

namespace DeviceQueue

instance : ∀ p, DecidableEq (DeviceQueue p)
  | .fifo => inferInstanceAs (DecidableEq (List Key))
  | .roundRobin => inferInstanceAs (DecidableEq { q : RoundRobin // q.Wf })
  | .sjf => inferInstanceAs (DecidableEq (List RequestElem))

theorem wf_empty : RoundRobin.Wf ⟨.empty, 0⟩ := ⟨fun _ he => absurd he List.not_mem_nil, Or.inl rfl⟩

def empty : ∀ p, DeviceQueue p
  | .fifo => ([] : List Key)
  | .roundRobin => ⟨⟨.empty, 0⟩, wf_empty⟩
  | .sjf => ([] : List RequestElem)

/-- The (process, request) pairs in the queue. -/
def contents : ∀ {p}, DeviceQueue p → Multiset Key
  | .fifo, (q : List Key) => (q : Multiset Key)
  | .roundRobin, q => RoundRobin.contents q.1
  | .sjf, (q : List RequestElem) => (q.map RequestElem.key : List Key)

/-- `pushRequest`; only the heap uses the task time. -/
def push : ∀ {p}, DeviceQueue p → (procId reqId : ℤ) → (time : ℕ) → DeviceQueue p
  | .fifo, (q : List Key), procId, reqId, _ => q ++ [(procId, reqId)]
  | .roundRobin, q, procId, reqId, _ => ⟨q.1.push procId reqId, RoundRobin.wf_push q.2 procId reqId⟩
  | .sjf, (q : List RequestElem), procId, reqId, time => ⟨reqId, procId, time⟩ :: q

theorem wf_pop {q : RoundRobin} (h : q.Wf) : q.pop.2.Wf := by
  rcases RoundRobin.pop_cases h with ⟨hpop, _⟩ | ⟨k, q', hpop, hwf, _⟩
  · rw [hpop]; exact h
  · rw [hpop]; exact hwf

/-- The head of `schedule`: the request to be tried next, if there is one. -/
def pop : ∀ {p}, DeviceQueue p → (tie : ℕ) → Option Key × DeviceQueue p
  | .fifo, (q : List Key), _ =>
    match q with
    | [] => (none, ([] : List Key))
    | k :: rest => (some k, rest)
  | .roundRobin, q, _ => (q.1.pop.1, ⟨q.1.pop.2, wf_pop q.2⟩)
  | .sjf, (q : List RequestElem), tie => RequestElem.pop q tie

@[simp] theorem contents_empty (p : Policy) : (empty p).contents = 0 := by
  cases p <;> rfl

@[simp] theorem contents_push {p : Policy} (q : DeviceQueue p) (procId reqId : ℤ) (time : ℕ) :
    (q.push procId reqId time).contents = (procId, reqId) ::ₘ q.contents := by
  cases p with
  | fifo =>
    exact Multiset.coe_eq_coe.mpr (List.perm_append_singleton (procId, reqId) q)
  | roundRobin => exact RoundRobin.contents_push q.1 procId reqId
  | sjf => rfl

/-- Either the queue is empty, or one of its pairs is taken out. -/
theorem pop_cases {p : Policy} (q : DeviceQueue p) (tie : ℕ) :
    q.pop tie = (none, q) ∧ q.contents = 0 ∨
      ∃ k q', q.pop tie = (some k, q') ∧ q.contents = k ::ₘ q'.contents := by
  cases p with
  | fifo =>
    match q with
    | ([] : List Key) => exact Or.inl ⟨rfl, rfl⟩
    | (k :: rest : List Key) => exact Or.inr ⟨k, rest, rfl, rfl⟩
  | roundRobin =>
    rcases RoundRobin.pop_cases q.2 with ⟨hpop, hc⟩ | ⟨k, q', hpop, hwf, hc⟩
    · have hfst : q.1.pop.1 = none := congrArg Prod.fst hpop
      have hsnd : q.1.pop.2 = q.1 := congrArg Prod.snd hpop
      exact Or.inl ⟨Prod.ext hfst (Subtype.ext hsnd), hc⟩
    · have hfst : q.1.pop.1 = some k := congrArg Prod.fst hpop
      have hsnd : q.1.pop.2 = q' := congrArg Prod.snd hpop
      exact Or.inr ⟨k, ⟨q', hwf⟩, Prod.ext hfst (Subtype.ext hsnd), hc⟩
  | sjf =>
    rcases RequestElem.pop_cases q tie with ⟨hpop, hc⟩ | ⟨e, _, hpop, hperm⟩
    · exact Or.inl ⟨hpop, by subst hc; rfl⟩
    · exact Or.inr ⟨e.key, _, hpop, Multiset.coe_eq_coe.mpr (hperm.map RequestElem.key)⟩

end DeviceQueue
end DxRt
