import DxRt.Lib.Workers

/-! lib/fixed_size_buffer.cpp, lib/task.cpp, lib/request.cpp: the buffers of a task.

    An NPU task has three pools of buffers, a CPU task uses one. `AcquireAllBuffers` takes one buffer
    of each and gives back what it has when a pool times out; the request keeps the set until it is
    released. Requests are objects of a pool themselves: they are picked, used and reset, and every
    caller has a request to itself. A step is one access to a buffer pool under its lock, or the code
    between two of them. The memory-cache slice on the device is left out. -/

namespace DxRt.TaskBuffers
variable {β : Type*}

/-- `_data` are the buffers that are owned, `_pointers` those that are free; `_count` is the number
    of the former. -/
structure FixedSizeBuffer (β : Type*) where
  data : List β
  pointers : List β

/-- A null pointer from a pool without buffers; `none` while there is no free buffer. -/
def FixedSizeBuffer.getBuffer (b : FixedSizeBuffer β) : Option (Option β × FixedSizeBuffer β) :=
  if b.data = [] then some (none, b)
  else match b.pointers.getLast? with
    | none => none
    | some ptr => some (some ptr, { b with pointers := b.pointers.dropLast })

/-- `none` for a buffer that is not owned, which ends the process. -/
def FixedSizeBuffer.releaseBuffer [DecidableEq β] (b : FixedSizeBuffer β) (ptr : β) :
    Option (FixedSizeBuffer β) :=
  if ptr ∉ b.data then none
  else if ptr ∈ b.pointers then some b
  else some { b with pointers := b.pointers ++ [ptr] }

inductive Pool where
  | encodedInput | output | encodedOutput
  deriving DecidableEq

/-- One pointer for each pool. -/
abbrev BufferSet (β : Type*) := Pool → Option β

/-- The task, and whether the process was ended. -/
structure Task (β : Type*) where
  isNpu : Bool
  pools : Pool → FixedSizeBuffer β
  aborted : Bool

/-- The pools that `AcquireAllBuffers` takes from. -/
def Task.acquireOrder (t : Task β) : List Pool :=
  if t.isNpu then [.encodedInput, .output, .encodedOutput] else [.output]

/-- `ReleaseAllBuffers`. -/
def releaseOrder : List Pool := [.encodedOutput, .output, .encodedInput]

/-- One of the releases in `ReleaseAllBuffers`; a CPU task has only the one pool. -/
def Task.release [DecidableEq β] (t : Task β) (k : Pool) : Option β → Task β
  | none => t
  | some ptr =>
    if k ≠ .output ∧ t.isNpu = false then t
    else match (t.pools k).releaseBuffer ptr with
      | none => { t with aborted := true }
      | some b => { t with pools := Function.update t.pools k b }

/-- Where the caller of a request is: in `AcquireAllBuffers`, before or after a time-out, in
    `setBufferSet` with the new set, or in `releaseBuffers`, called by `Reset` or not. -/
inductive Phase (β : Type*) where
  | idle
  | acquiring (todo : List Pool) (buffers : BufferSet β)
  | rollback (todo : List Pool) (buffers : BufferSet β)
  | setting (todo : List Pool) (buffers : BufferSet β)
  | releasing (todo : List Pool) (reset : Bool)

/-- `task` tells whether `_task` is set. `acquired` tells whether the request has had a set since its
    last reset, and `late` whether it has acquired one after `releaseBuffers`, without a reset. -/
structure Request (β : Type*) where
  task : Bool
  bufferSet : Option (BufferSet β)
  bufferReleased : Bool
  phase : Phase β
  acquired : Bool
  late : Bool

inductive Op where
  | create | acquire | releaseBuffers | reset

/-- The next operation on a request, and whether a wait ends with a time-out. -/
structure Circumstances where
  op : Op
  timeout : Bool

namespace Request
variable {r r' : Request β} {t t' : Task β} {e : Circumstances} {k : Pool}

/-- The end of `releaseBuffers`, and the rest of `Reset`. -/
def finish (r : Request β) (reset : Bool) : Request β :=
  if reset then { r with task := false, bufferReleased := false, phase := .idle, acquired := false }
  else { r with phase := .idle }

def startRelease (r : Request β) (reset : Bool) : Request β :=
  if r.bufferReleased then r.finish reset
  else if r.bufferSet.isSome ∧ r.task then { r with phase := .releasing releaseOrder reset }
  else { r with bufferReleased := true }.finish reset

/-- The set that is kept for the request, or nothing. -/
def kept (r : Request β) (k : Pool) : Option β := r.bufferSet.bind (· k)

/-- `AcquireAllBuffers` begins. -/
def startAcquire (t : Task β) (r : Request β) : Request β :=
  { r with phase := .acquiring t.acquireOrder fun _ => none, late := r.late || r.bufferReleased }

/-- `setBufferSet` begins; a set that is there is released first. -/
def startSet (r : Request β) (buffers : BufferSet β) : Request β :=
  { r with phase := .setting (if r.bufferSet.isSome ∧ r.task then releaseOrder else []) buffers }

/-- A step of the caller of a request. -/
def exec [DecidableEq β] (t : Task β) (r : Request β) (e : Circumstances) :
    Option (Task β × Request β) :=
  match r.phase with
  | .idle =>
    match e.op with
    | .create => if r.task then none else some (t, { r with task := true })
    | .acquire => if r.task then some (t, r.startAcquire t) else none
    | .releaseBuffers => some (t, r.startRelease false)
    | .reset => some (t, r.startRelease true)
  | .acquiring [] buffers => some (t, r.startSet buffers)
  | .acquiring (k :: todo) buffers =>
    match (t.pools k).getBuffer with
    | none => if e.timeout then some (t, { r with phase := .rollback releaseOrder buffers }) else none
    | some (ptr, b) => some ({ t with pools := Function.update t.pools k b },
        { r with phase := .acquiring todo (Function.update buffers k ptr) })
  | .rollback [] _ => some (t, { r with phase := .idle })
  | .rollback (k :: todo) buffers =>
    some (t.release k (buffers k), { r with phase := .rollback todo buffers })
  | .setting [] buffers =>
    some (t, { r with bufferSet := some buffers, phase := .idle, acquired := true })
  | .setting (k :: todo) buffers =>
    some (t.release k (r.kept k), { r with phase := .setting todo buffers })
  | .releasing [] reset =>
    some (t, { r with bufferSet := none, bufferReleased := true }.finish reset)
  | .releasing (k :: todo) reset =>
    some (t.release k (r.kept k), { r with phase := .releasing todo reset })

end Request

/-- The requests work on the task; none comes from outside. -/
def system [DecidableEq β] : Workers.System (Task β) (Request β) Circumstances Empty where
  exec t r e := (r.exec t e).map fun s => (s.1, [s.2])
  arrive _ a := a.elim

/-! ### What a step does to a pool -/

/-- The pool as it was, with buffers put at the end of the free ones. -/
def Task.push (t : Task β) (k : Pool) (l : List β) : Task β :=
  { t with pools := Function.update t.pools k ⟨(t.pools k).data, (t.pools k).pointers ++ l⟩ }

section
variable {r r' : Request β} {t t' : Task β} {e : Circumstances} {k : Pool} {rest : List (Request β)}

@[simp] theorem Task.push_nil (t : Task β) (k : Pool) : t.push k [] = t := by
  simp [Task.push, Function.update_eq_self]

@[simp] theorem Task.push_data (t : Task β) (k j : Pool) (l : List β) :
    ((t.push k l).pools j).data = (t.pools j).data := by
  by_cases hj : j = k
  · subst hj
    simp [Task.push]
  · simp [Task.push, hj]

theorem Task.push_pointers (t : Task β) (k j : Pool) (l : List β) :
    ((t.push k l).pools j).pointers = (t.pools j).pointers ++ if j = k then l else [] := by
  by_cases hj : j = k
  · subst hj
    simp [Task.push]
  · simp [Task.push, hj]

/-- A buffer that is taken was the last of the free ones. -/
theorem getBuffer_some {b b' : FixedSizeBuffer β} {ptr : Option β}
    (h : b.getBuffer = some (ptr, b')) : b'.data = b.data ∧ b.pointers = b'.pointers ++ ptr.toList := by
  rw [FixedSizeBuffer.getBuffer] at h
  split_ifs at h with hempty
  · obtain ⟨rfl, rfl⟩ := Prod.mk.inj (Option.some.inj h)
    exact ⟨rfl, (List.append_nil _).symm⟩
  · split at h
    case h_1 => cases h
    case h_2 p hlast =>
      obtain ⟨rfl, rfl⟩ := Prod.mk.inj (Option.some.inj h)
      exact ⟨rfl, (List.dropLast_append_getLast? p hlast).symm⟩

/-! ### What a request holds -/

namespace Request

/-- The buffers of a pool that a request has taken and not given back. -/
def held (k : Pool) (r : Request β) : List β :=
  match r.phase with
  | .idle => (r.kept k).toList
  | .acquiring _ buffers => (r.kept k).toList ++ (buffers k).toList
  | .rollback todo buffers => (r.kept k).toList ++ if k ∈ todo then (buffers k).toList else []
  | .setting todo buffers => (if k ∈ todo then (r.kept k).toList else []) ++ (buffers k).toList
  | .releasing todo _ => if k ∈ todo then (r.kept k).toList else []

/-- A CPU task has buffers of one pool only. -/
def Usable (isNpu : Bool) (buffers : BufferSet β) : Prop :=
  ∀ k, buffers k ≠ none → k = .output ∨ isNpu = true

/-- What a phase has to do is done once for each pool. -/
def PhaseWf (isNpu : Bool) (r : Request β) : Prop :=
  match r.phase with
  | .idle => True
  | .acquiring todo buffers => r.task = true ∧ todo.Nodup ∧ (∀ k ∈ todo, buffers k = none) ∧
      (∀ k ∈ todo, k = .output ∨ isNpu = true) ∧ Usable isNpu buffers
  | .rollback todo buffers => todo.Nodup ∧ Usable isNpu buffers
  | .setting todo buffers => todo.Nodup ∧ Usable isNpu buffers ∧ r.task = true
  | .releasing todo _ => todo.Nodup ∧ r.task = true

/-- `_bufferReleased` is set while there is no set, and a set has a task and is counted, except for a
    request that has acquired a set too late. -/
structure Wf (isNpu : Bool) (r : Request β) : Prop where
  phase : PhaseWf isNpu r
  usable : Usable isNpu r.kept
  kept : r.bufferSet ≠ none → (r.acquired = true ∧ r.task = true) ∨ r.late = true
  released : r.bufferReleased = true → (r.bufferSet = none ∧ r.phase = .idle) ∨ r.late = true

end Request

theorem mem_releaseOrder (k : Pool) : k ∈ releaseOrder := by
  cases k <;> decide

/-- What a step of one request leaves as it was: the buffers of each pool that are free or held. -/
structure Balanced (t t' : Task β) (r r' : Request β) : Prop where
  data : ∀ k, (t'.pools k).data = (t.pools k).data
  isNpu : t'.isNpu = t.isNpu
  aborted : t'.aborted = t.aborted
  free : ∀ k, ((t'.pools k).pointers ++ r'.held k).Perm ((t.pools k).pointers ++ r.held k)

theorem balanced_of_held (hheld : ∀ k, r'.held k = r.held k) : Balanced t t r r' :=
  ⟨fun _ => rfl, rfl, rfl, fun k => hheld k ▸ List.Perm.refl _⟩

theorem balanced_push {l : List β} (hheld : ∀ j, ((if j = k then l else []) ++ r'.held j).Perm
    (r.held j)) : Balanced t (t.push k l) r r' where
  data j := t.push_data k j l
  isNpu := rfl
  aborted := rfl
  free j := by
    rw [t.push_pointers, List.append_assoc]
    exact (hheld j).append_left _

/-- What is to be released, less what is released now. -/
theorem todo_perm {todo : List Pool} {f : Pool → List β} (hnodup : (k :: todo).Nodup) (j : Pool) :
    ((if j = k then f k else []) ++ if j ∈ todo then f j else []).Perm
      (if j ∈ k :: todo then f j else []) := by
  by_cases hj : j = k
  · subst hj
    rw [if_pos rfl, if_neg (List.nodup_cons.mp hnodup).1, if_pos List.mem_cons_self, List.append_nil]
  · by_cases hmem : j ∈ todo
    · rw [if_neg hj, if_pos hmem, if_pos (List.mem_cons_of_mem _ hmem), List.nil_append]
    · rw [if_neg hj, if_neg hmem, if_neg fun hc => (List.mem_cons.mp hc).elim hj hmem,
        List.nil_append]

/-- `releaseBuffers` and `Reset`, up to the first release. -/
theorem startRelease_balanced (hphase : r.phase = .idle) (reset : Bool) :
    Balanced t t r (r.startRelease reset) := by
  refine balanced_of_held fun k => ?_
  rw [Request.startRelease]
  split
  · cases reset <;> simp only [Request.held, Request.finish, Request.kept, hphase] <;> rfl
  · split
    · simp only [Request.held, hphase, Request.kept, if_pos (mem_releaseOrder k)]
    · cases reset <;> simp only [Request.held, Request.finish, Request.kept, hphase] <;> rfl

/-- `AcquireAllBuffers` takes a buffer of a pool it has none of. -/
theorem take_balanced {todo : List Pool} {buffers : BufferSet β} {ptr : Option β}
    {b : FixedSizeBuffer β} (hphase : r.phase = .acquiring (k :: todo) buffers)
    (hnone : buffers k = none) (hget : (t.pools k).getBuffer = some (ptr, b)) :
    Balanced t { t with pools := Function.update t.pools k b } r
      { r with phase := .acquiring todo (Function.update buffers k ptr) } := by
  obtain ⟨hdata, hpointers⟩ := getBuffer_some hget
  refine ⟨fun j => ?_, rfl, rfl, fun j => ?_⟩
  · by_cases hj : j = k
    · subst hj
      simp [hdata]
    · simp [hj]
  · simp only [Request.held, hphase]
    by_cases hj : j = k
    · subst hj
      rw [Function.update_self, Function.update_self, hpointers, hnone, List.append_assoc]
      refine List.Perm.append_left _ ?_
      rw [Option.toList_none, List.append_nil]
      exact List.perm_append_comm
    · rw [Function.update_of_ne hj, Function.update_of_ne hj]
      exact List.Perm.refl _

/-- Every buffer is owned once, and free or held by one request. -/
structure Conserved (t : Task β) (work : List (Request β)) : Prop where
  nodup : ∀ k, (t.pools k).data.Nodup
  free : ∀ k, ((t.pools k).pointers ++ work.flatMap (Request.held k)).Perm (t.pools k).data

theorem Conserved.busy {p : β} (h : Conserved t (r :: rest)) (hp : p ∈ r.held k) :
    p ∈ (t.pools k).data ∧ p ∉ (t.pools k).pointers := by
  have hmem : p ∈ (r :: rest).flatMap (Request.held k) := List.mem_append_left _ hp
  have hnodup := (h.free k).nodup_iff.mpr (h.nodup k)
  exact ⟨(h.free k).subset (List.mem_append_right _ hmem),
    fun hfree => List.disjoint_of_nodup_append hnodup hfree hmem⟩

theorem Conserved.balanced (h : Conserved t (r :: rest)) (hb : Balanced t t' r r') :
    Conserved t' (r' :: rest) where
  nodup k := hb.data k ▸ h.nodup k
  free k := by
    have hfree := (hb.free k).append_right (rest.flatMap (Request.held k))
    rw [List.append_assoc, List.append_assoc] at hfree
    rw [hb.data]
    exact hfree.trans (h.free k)

theorem acquireOrder_nodup (t : Task β) : t.acquireOrder.Nodup := by
  rw [Task.acquireOrder]
  split <;> decide

theorem acquireOrder_usable (t : Task β) : ∀ k ∈ t.acquireOrder, k = .output ∨ t.isNpu = true := by
  intro k hk
  rw [Task.acquireOrder] at hk
  split at hk
  case isTrue hnpu => exact Or.inr hnpu
  case isFalse => exact Or.inl (List.mem_singleton.mp hk)

theorem Request.Wf.late {isNpu : Bool} (h : r.Wf isNpu) (hphase : r.phase ≠ .idle) :
    r.bufferReleased = true → r.late = true :=
  fun hreleased => (h.released hreleased).resolve_left fun hc => hphase hc.2

theorem finish_wf {isNpu : Bool} {reset : Bool} (husable : Request.Usable isNpu r.kept)
    (hkept : r.bufferSet ≠ none → r.late = true) : (r.finish reset).Wf isNpu := by
  cases reset with
  | false => exact ⟨trivial, husable, fun hset => Or.inr (hkept hset), fun _ => by
      by_cases hset : r.bufferSet = none
      · exact Or.inl ⟨hset, rfl⟩
      · exact Or.inr (hkept hset)⟩
  | true => exact ⟨trivial, husable, fun hset => Or.inr (hkept hset), nofun⟩

theorem startRelease_wf {isNpu : Bool} (h : r.Wf isNpu) (reset : Bool) :
    (r.startRelease reset).Wf isNpu := by
  rw [Request.startRelease]
  split
  case isTrue hreleased =>
    refine finish_wf h.usable fun hset => ?_
    exact (h.released hreleased).resolve_left fun hc => hset hc.1
  case isFalse hreleased =>
    split
    case isTrue hset =>
      exact ⟨⟨by decide, hset.2⟩, h.usable, h.kept, fun hc => absurd hc hreleased⟩
    case isFalse hnone =>
      refine finish_wf h.usable fun hset => ?_
      refine (h.kept hset).resolve_left fun hc => hnone ⟨Option.isSome_iff_ne_none.mpr hset, hc.2⟩

theorem startAcquire_wf (hwf : r.Wf t.isNpu) (htask : r.task = true) :
    (r.startAcquire t).Wf t.isNpu := by
  refine ⟨⟨htask, acquireOrder_nodup t, fun _ _ => rfl, acquireOrder_usable t, fun k hk =>
    absurd rfl hk⟩, hwf.usable, fun hset => (hwf.kept hset).imp_right fun hlate => ?_,
    fun hreleased => Or.inr ?_⟩
  · exact Bool.or_eq_true_iff.mpr (Or.inl hlate)
  · exact Bool.or_eq_true_iff.mpr (Or.inr hreleased)

theorem take_wf {isNpu : Bool} {ptr : Option β} {todo : List Pool} {buffers : BufferSet β}
    (hwf : r.Wf isNpu) (hphase : r.phase = .acquiring (k :: todo) buffers) :
    { r with phase := .acquiring todo (Function.update buffers k ptr) : Request β }.Wf isNpu := by
  have hphaseWf := hwf.phase
  simp only [Request.PhaseWf, hphase] at hphaseWf
  obtain ⟨htask, hnodup, hnone, horder, husable⟩ := hphaseWf
  obtain ⟨hnot, hrest⟩ := List.nodup_cons.mp hnodup
  refine ⟨⟨htask, hrest, fun j hj => ?_, fun j hj => horder j (List.mem_cons_of_mem _ hj),
    fun j hj => ?_⟩, hwf.usable, hwf.kept, fun hc => Or.inr (hwf.late (hphase ▸ nofun) hc)⟩
  · rw [Function.update_of_ne (ne_of_mem_of_not_mem hj hnot)]
    exact hnone j (List.mem_cons_of_mem _ hj)
  · by_cases hsame : j = k
    · exact hsame ▸ horder k List.mem_cons_self
    · rw [Function.update_of_ne hsame] at hj
      exact husable j hj

theorem Task.ext_pools {t t' : Task β} (hnpu : t'.isNpu = t.isNpu) (haborted : t'.aborted = t.aborted)
    (hdata : ∀ k, (t'.pools k).data = (t.pools k).data)
    (hpointers : ∀ k, (t'.pools k).pointers = (t.pools k).pointers) : t' = t := by
  obtain ⟨_, pools, _⟩ := t
  obtain ⟨_, pools', _⟩ := t'
  obtain rfl : pools' = pools := funext fun k => by
    obtain ⟨hd, hp⟩ := And.intro (hdata k) (hpointers k)
    cases hk : pools k
    cases hk' : pools' k
    simp_all
  subst hnpu haborted
  rfl

end

section
variable [DecidableEq β] {r r' : Request β} {t t' : Task β} {e : Circumstances} {k : Pool}
variable {rest : List (Request β)} {todo : List Pool} {buffers : BufferSet β}

/-- A buffer that is owned and not free is put back. -/
theorem Task.release_eq {ptr : Option β} (husable : ptr ≠ none → k = .output ∨ t.isNpu = true)
    (hbusy : ∀ p ∈ ptr, p ∈ (t.pools k).data ∧ p ∉ (t.pools k).pointers) :
    t.release k ptr = t.push k ptr.toList := by
  cases ptr with
  | none => simp [Task.release]
  | some p =>
    obtain ⟨howned, hnot⟩ := hbusy p rfl
    have hskip : ¬(k ≠ .output ∧ t.isNpu = false) := by
      rintro ⟨hother, hcpu⟩
      rcases husable (Option.some_ne_none p) with houtput | hnpu
      · exact hother houtput
      · exact Bool.false_ne_true (hcpu.symm.trans hnpu)
    rw [Task.release, if_neg hskip, FixedSizeBuffer.releaseBuffer, if_neg (not_not.mpr howned),
      if_neg hnot]
    rfl

/-- A buffer that the request holds is given back. -/
theorem balanced_release {ptr : Option β} (h : Conserved t (r :: rest))
    (husable : ptr ≠ none → k = .output ∨ t.isNpu = true)
    (hheld : ∀ j, ((if j = k then ptr.toList else []) ++ r'.held j).Perm (r.held j)) :
    Balanced t (t.release k ptr) r r' := by
  have hbusy : ∀ p ∈ ptr, p ∈ (t.pools k).data ∧ p ∉ (t.pools k).pointers := by
    intro p hp
    refine h.busy ((hheld k).subset (List.mem_append_left _ ?_))
    rw [if_pos rfl]
    exact Option.mem_toList.mpr hp
  rw [Task.release_eq husable hbusy]
  exact balanced_push hheld

/-- What a step of the caller of a request does, by the phase it is in. -/
inductive Moves (t : Task β) (r : Request β) : Task β → Request β → Prop where
  | create (hphase : r.phase = .idle) : Moves t r t { r with task := true }
  | startAcquire (hphase : r.phase = .idle) (htask : r.task = true) :
    Moves t r t (r.startAcquire t)
  | startRelease (hphase : r.phase = .idle) (reset : Bool) : Moves t r t (r.startRelease reset)
  | startSet {buffers : BufferSet β} (hphase : r.phase = .acquiring [] buffers) :
    Moves t r t (r.startSet buffers)
  | timeout {k : Pool} {todo : List Pool} {buffers : BufferSet β}
    (hphase : r.phase = .acquiring (k :: todo) buffers) :
    Moves t r t { r with phase := .rollback releaseOrder buffers }
  | take {k : Pool} {todo : List Pool} {buffers : BufferSet β} {ptr : Option β}
    {b : FixedSizeBuffer β} (hphase : r.phase = .acquiring (k :: todo) buffers)
    (hget : (t.pools k).getBuffer = some (ptr, b)) :
    Moves t r { t with pools := Function.update t.pools k b }
      { r with phase := .acquiring todo (Function.update buffers k ptr) }
  | giveBack {k : Pool} {todo : List Pool} {buffers : BufferSet β}
    (hphase : r.phase = .rollback (k :: todo) buffers) :
    Moves t r (t.release k (buffers k)) { r with phase := .rollback todo buffers }
  | failed {buffers : BufferSet β} (hphase : r.phase = .rollback [] buffers) :
    Moves t r t { r with phase := .idle }
  | replace {k : Pool} {todo : List Pool} {buffers : BufferSet β}
    (hphase : r.phase = .setting (k :: todo) buffers) :
    Moves t r (t.release k (r.kept k)) { r with phase := .setting todo buffers }
  | set {buffers : BufferSet β} (hphase : r.phase = .setting [] buffers) :
    Moves t r t { r with bufferSet := some buffers, phase := .idle, acquired := true }
  | release {k : Pool} {todo : List Pool} {reset : Bool}
    (hphase : r.phase = .releasing (k :: todo) reset) :
    Moves t r (t.release k (r.kept k)) { r with phase := .releasing todo reset }
  | finish {reset : Bool} (hphase : r.phase = .releasing [] reset) :
    Moves t r t ({ r with bufferSet := none, bufferReleased := true }.finish reset)

theorem exec_moves (hexec : r.exec t e = some (t', r')) : Moves t r t' r' := by
  cases hphase : r.phase with
  | idle =>
    simp only [Request.exec, hphase] at hexec
    cases hop : e.op with
    | create =>
      simp only [hop] at hexec
      split_ifs at hexec
      cases hexec
      exact hphase ▸ .create hphase
    | acquire =>
      simp only [hop] at hexec
      split_ifs at hexec with htask
      cases hexec
      exact .startAcquire hphase htask
    | releaseBuffers =>
      simp only [hop] at hexec
      cases hexec
      exact .startRelease hphase false
    | reset =>
      simp only [hop] at hexec
      cases hexec
      exact .startRelease hphase true
  | acquiring todo buffers =>
    cases todo with
    | nil =>
      simp only [Request.exec, hphase] at hexec
      cases hexec
      exact .startSet hphase
    | cons k todo =>
      simp only [Request.exec, hphase] at hexec
      cases hget : (t.pools k).getBuffer with
      | none =>
        simp only [hget] at hexec
        split_ifs at hexec
        cases hexec
        exact .timeout hphase
      | some taken =>
        obtain ⟨ptr, b⟩ := taken
        simp only [hget] at hexec
        cases hexec
        exact .take hphase hget
  | rollback todo buffers =>
    cases todo <;> simp only [Request.exec, hphase] at hexec <;> cases hexec
    · exact .failed hphase
    · exact .giveBack hphase
  | setting todo buffers =>
    cases todo <;> simp only [Request.exec, hphase] at hexec <;> cases hexec
    · exact .set hphase
    · exact .replace hphase
  | releasing todo reset =>
    cases todo <;> simp only [Request.exec, hphase] at hexec <;> cases hexec
    · exact .finish hphase
    · exact .release hphase

theorem exec_balanced (h : Conserved t (r :: rest)) (hwf : r.Wf t.isNpu)
    (hexec : r.exec t e = some (t', r')) : Balanced t t' r r' := by
  have hphaseWf := hwf.phase
  cases exec_moves hexec with
  | create hphase => exact balanced_of_held fun k => rfl
  | startAcquire hphase htask =>
    refine balanced_of_held fun k => ?_
    simp only [Request.held, hphase]
    exact List.append_nil _
  | startRelease hphase reset => exact startRelease_balanced hphase reset
  | startSet hphase =>
    simp only [Request.PhaseWf, hphase] at hphaseWf
    refine balanced_of_held fun k => ?_
    simp only [Request.held, hphase, Request.startSet, Request.kept, hphaseWf.1]
    cases r.bufferSet with
    | none => rfl
    | some set => exact congrArg (· ++ _) (if_pos (mem_releaseOrder k))
  | timeout hphase =>
    refine balanced_of_held fun k => ?_
    simp only [Request.held, hphase, Request.kept, if_pos (mem_releaseOrder k)]
  | take hphase hget =>
    simp only [Request.PhaseWf, hphase] at hphaseWf
    exact take_balanced hphase (hphaseWf.2.2.1 _ List.mem_cons_self) hget
  | failed hphase =>
    refine balanced_of_held fun k => ?_
    simp only [Request.held, hphase]
    exact (List.append_nil _).symm
  | @giveBack k todo buffers hphase =>
    simp only [Request.PhaseWf, hphase] at hphaseWf
    refine balanced_release h (hphaseWf.2 k) fun j => ?_
    simp only [Request.held, hphase]
    exact List.perm_append_comm_assoc _ _ _ |>.trans
      ((@todo_perm β k todo (fun j => (buffers j).toList) hphaseWf.1 j).append_left _)
  | set hphase =>
    refine balanced_of_held fun k => ?_
    simp only [Request.held, hphase]
    rfl
  | @replace k todo buffers hphase =>
    simp only [Request.PhaseWf, hphase] at hphaseWf
    refine balanced_release h (hwf.usable k) fun j => ?_
    simp only [Request.held, hphase]
    rw [← List.append_assoc]
    exact (@todo_perm β k todo (fun j => (r.kept j).toList) hphaseWf.1 j).append_right _
  | @finish reset hphase =>
    refine balanced_of_held fun k => ?_
    cases reset <;> simp only [Request.held, hphase] <;> rfl
  | @release k todo reset hphase =>
    simp only [Request.PhaseWf, hphase] at hphaseWf
    refine balanced_release h (hwf.usable k) fun j => ?_
    simp only [Request.held, hphase]
    exact @todo_perm β k todo (fun j => (r.kept j).toList) hphaseWf.1 j

theorem exec_wf (hwf : r.Wf t.isNpu) (hexec : r.exec t e = some (t', r')) : r'.Wf t.isNpu := by
  have hphaseWf := hwf.phase
  cases exec_moves hexec with
  | create hphase =>
    exact ⟨by simp only [Request.PhaseWf, hphase], hwf.usable,
      fun hset => (hwf.kept hset).imp_left fun hc => ⟨hc.1, rfl⟩, hwf.released⟩
  | startAcquire hphase htask => exact startAcquire_wf hwf htask
  | startRelease hphase reset => exact startRelease_wf hwf reset
  | startSet hphase =>
    have hlate := hwf.late (hphase ▸ nofun)
    simp only [Request.PhaseWf, hphase] at hphaseWf
    refine ⟨⟨?_, hphaseWf.2.2.2.2, hphaseWf.1⟩, hwf.usable, hwf.kept, fun hc => Or.inr (hlate hc)⟩
    split <;> decide
  | timeout hphase =>
    have hlate := hwf.late (hphase ▸ nofun)
    simp only [Request.PhaseWf, hphase] at hphaseWf
    exact ⟨⟨by decide, hphaseWf.2.2.2.2⟩, hwf.usable, hwf.kept, fun hc => Or.inr (hlate hc)⟩
  | take hphase hget => exact take_wf hwf hphase
  | failed hphase =>
    have hlate := hwf.late (hphase ▸ nofun)
    exact ⟨trivial, hwf.usable, hwf.kept, fun hc => Or.inr (hlate hc)⟩
  | set hphase =>
    have hlate := hwf.late (hphase ▸ nofun)
    simp only [Request.PhaseWf, hphase] at hphaseWf
    exact ⟨trivial, hphaseWf.2.1, fun _ => Or.inl ⟨rfl, hphaseWf.2.2⟩, fun hc => Or.inr (hlate hc)⟩
  | giveBack hphase | replace hphase | release hphase =>
    have hlate := hwf.late (hphase ▸ nofun)
    simp only [Request.PhaseWf, hphase] at hphaseWf
    exact ⟨⟨hphaseWf.1.of_cons, hphaseWf.2⟩, hwf.usable, hwf.kept, fun hc => Or.inr (hlate hc)⟩
  | finish hphase => exact finish_wf (fun k hk => absurd rfl hk) fun hset => absurd rfl hset

/-! ### A failed attempt -/

/-- What a pool lacks because of an attempt. -/
def Phase.lacking (k : Pool) : Phase β → List β
  | .idle | .releasing _ _ => []
  | .acquiring _ buffers | .setting _ buffers => (buffers k).toList
  | .rollback todo buffers => if k ∈ todo then (buffers k).toList else []

/-- A step of an attempt, while nobody else touches the task. -/
def Attempt (x y : Task β × Request β) : Prop :=
  (∃ todo buffers, x.2.phase = .acquiring todo buffers ∨ x.2.phase = .rollback todo buffers) ∧
    ∃ e, x.2.exec x.1 e = some y

/-- The pools are as before, less what the attempt has taken. -/
structure Attempted (t : Task β) (r : Request β) (rest : List (Request β))
    (x : Task β × Request β) : Prop where
  conserved : Conserved x.1 (x.2 :: rest)
  wf : x.2.Wf x.1.isNpu
  isNpu : x.1.isNpu = t.isNpu
  aborted : x.1.aborted = t.aborted
  data : ∀ k, (x.1.pools k).data = (t.pools k).data
  bufferSet : x.2.bufferSet = r.bufferSet
  lacking : ∀ k, (t.pools k).pointers = (x.1.pools k).pointers ++ x.2.phase.lacking k

theorem rollback_release (h : Conserved t (r :: rest)) (hwf : r.Wf t.isNpu)
    (hphase : r.phase = .rollback (k :: todo) buffers) :
    t.release k (buffers k) = t.push k (buffers k).toList := by
  have hphaseWf := hwf.phase
  simp only [Request.PhaseWf, hphase] at hphaseWf
  refine Task.release_eq (hphaseWf.2 k) fun p hp => h.busy ?_
  simp only [Request.held, hphase, if_pos (List.mem_cons_self : k ∈ k :: todo)]
  exact List.mem_append_right _ (Option.mem_toList.mpr hp)

/-- A step of an attempt moves a buffer between the end of the free ones and the attempt. -/
theorem attempt_lacking (h : Conserved t (r :: rest)) (hwf : r.Wf t.isNpu)
    (hphase : r.phase = .acquiring todo buffers ∨ r.phase = .rollback todo buffers)
    (hexec : r.exec t e = some (t', r')) : r'.bufferSet = r.bufferSet ∧ ∀ j,
      (t'.pools j).pointers ++ r'.phase.lacking j = (t.pools j).pointers ++ r.phase.lacking j := by
  have hphaseWf := hwf.phase
  cases exec_moves hexec with
  | startSet hacquiring =>
    refine ⟨rfl, fun j => ?_⟩
    rw [hacquiring]
    rfl
  | timeout hacquiring =>
    refine ⟨rfl, fun j => ?_⟩
    rw [hacquiring]
    exact congrArg (_ ++ ·) (if_pos (mem_releaseOrder j))
  | @take k todo buffers ptr b hacquiring hget =>
    simp only [Request.PhaseWf, hacquiring] at hphaseWf
    refine ⟨rfl, fun j => ?_⟩
    rw [hacquiring]
    change (Function.update t.pools k b j).pointers ++ (Function.update buffers k ptr j).toList =
      (t.pools j).pointers ++ (buffers j).toList
    by_cases hj : j = k
    · subst hj
      rw [Function.update_self, Function.update_self, (getBuffer_some hget).2,
        hphaseWf.2.2.1 j List.mem_cons_self]
      exact (List.append_nil _).symm
    · rw [Function.update_of_ne hj, Function.update_of_ne hj]
  | failed hrollback =>
    refine ⟨rfl, fun j => ?_⟩
    rw [hrollback]
    rfl
  | @giveBack k todo buffers hrollback =>
    rw [rollback_release h hwf hrollback]
    simp only [Request.PhaseWf, hrollback] at hphaseWf
    refine ⟨rfl, fun j => ?_⟩
    rw [hrollback, t.push_pointers, List.append_assoc]
    change _ ++ (_ ++ if j ∈ todo then _ else []) = _ ++ if j ∈ k :: todo then _ else []
    by_cases hj : j = k
    · subst hj
      rw [if_pos rfl, if_neg (List.nodup_cons.mp hphaseWf.1).1, if_pos List.mem_cons_self,
        List.append_nil]
    · rw [if_neg hj, List.nil_append]
      simp only [List.mem_cons, hj, false_or]
  | create hother | startAcquire hother | startRelease hother | replace hother | set hother
  | release hother | finish hother => simp [hother] at hphase

theorem Attempted.step {t : Task β} {r : Request β} {x y : Task β × Request β}
    (h : Attempted t r rest x) (hstep : Attempt x y) : Attempted t r rest y := by
  obtain ⟨⟨todo, buffers, hphase⟩, e, hexec⟩ := hstep
  obtain ⟨t', r'⟩ := y
  have hb := exec_balanced h.conserved h.wf hexec
  obtain ⟨hset, hlacking⟩ := attempt_lacking h.conserved h.wf hphase hexec
  exact ⟨h.conserved.balanced hb, hb.isNpu ▸ exec_wf h.wf hexec, hb.isNpu.trans h.isNpu,
    hb.aborted.trans h.aborted, fun k => (hb.data k).trans (h.data k), hset.trans h.bufferSet,
    fun k => (h.lacking k).trans (hlacking k).symm⟩

/-- An attempt that fails leaves the pools and the set of the request as they were. -/
theorem failed_attempt (h : Conserved t (r :: rest)) (hwf : r.Wf t.isNpu) (htask : r.task = true)
    (hidle : r.phase = .idle) {y : Task β × Request β}
    (hrun : Relation.ReflTransGen Attempt (t, r.startAcquire t) y) (hfailed : y.2.phase = .idle) :
    y.1 = t ∧ y.2.bufferSet = r.bufferSet := by
  have hexec : r.exec t ⟨.acquire, false⟩ = some (t, r.startAcquire t) := by
    simp only [Request.exec, hidle, htask, if_true]
  have hstart : Attempted t r rest (t, r.startAcquire t) :=
    ⟨h.balanced (exec_balanced h hwf hexec), exec_wf hwf hexec, rfl, rfl, fun _ => rfl, rfl,
      fun _ => (List.append_nil _).symm⟩
  have hend : Attempted t r rest y := Run.invariant (fun _ _ hstep hx => hx.step hstep) hrun hstart
  refine ⟨Task.ext_pools hend.isNpu hend.aborted hend.data fun k => ?_, hend.bufferSet⟩
  have hlacking := hend.lacking k
  rw [hfailed] at hlacking
  exact (hlacking.trans (List.append_nil _)).symm

end

/-! ### Runs -/

/-- A request of the pool of requests, before its first use. -/
def Request.fresh : Request β where
  task := false
  bufferSet := none
  bufferReleased := false
  phase := .idle
  acquired := false
  late := false

/-- A task with full pools, and `n` requests. -/
def start (isNpu : Bool) (data : Pool → List β) (n : ℕ) : Workers.Config (Task β) (Request β) :=
  ⟨⟨isNpu, fun k => ⟨data k, data k⟩, false⟩, List.replicate n .fresh⟩

/-- The run invariant. -/
structure Inv (data : Pool → List β) (t : Task β) (work : List (Request β)) : Prop where
  aborted : t.aborted = false
  data : ∀ k, (t.pools k).data = data k
  conserved : Conserved t work
  wf : ∀ r ∈ work, r.Wf t.isNpu

theorem Inv.perm {t : Task β} {data : Pool → List β} {work work' : List (Request β)} (h : Inv data t work)
    (hperm : work.Perm work') : Inv data t work' :=
  ⟨h.aborted, h.data, ⟨h.conserved.nodup, fun k =>
    ((hperm.flatMap_right _).append_left _).symm.trans (h.conserved.free k)⟩,
    fun r hr => h.wf r (hperm.mem_iff.mpr hr)⟩

theorem start_inv {isNpu : Bool} {data : Pool → List β} {n : ℕ} (hdata : ∀ k, (data k).Nodup) :
    Inv data (start isNpu data n).shared (start isNpu data n).work where
  aborted := rfl
  data _ := rfl
  conserved := by
    refine ⟨hdata, fun k => ?_⟩
    have hnone : (start isNpu data n).work.flatMap (Request.held k) = [] :=
      List.flatMap_eq_nil_iff.mpr fun r hr => by
        rw [List.eq_of_mem_replicate hr]
        rfl
    rw [hnone, List.append_nil]
    exact List.Perm.refl _
  wf r hr := by
    rw [List.eq_of_mem_replicate hr]
    exact ⟨trivial, fun k hk => absurd rfl hk, fun hset => absurd rfl hset, nofun⟩

section
variable [DecidableEq β] {r r' : Request β} {t t' : Task β} {e : Circumstances}
variable {rest : List (Request β)}

theorem Inv.exec {data : Pool → List β} (h : Inv data t (r :: rest))
    (hexec : r.exec t e = some (t', r')) : Inv data t' (r' :: rest) := by
  have hwf := h.wf r List.mem_cons_self
  have hb := exec_balanced h.conserved hwf hexec
  refine ⟨hb.aborted.trans h.aborted, fun k => (hb.data k).trans (h.data k),
    h.conserved.balanced hb, fun s hs => ?_⟩
  rw [hb.isNpu]
  rcases List.mem_cons.mp hs with rfl | hs
  · exact exec_wf hwf hexec
  · exact h.wf s (List.mem_cons_of_mem _ hs)

/-- The free buffers of a pool are owned, each is free once, and no buffer is held twice or held and
    free. A failed attempt changes nothing. When every request that had a set was reset, and none
    acquired one after `releaseBuffers`, every pool is full. -/
theorem buffers_conserved {isNpu : Bool} {data : Pool → List β} {n : ℕ}
    (hdata : ∀ k, (data k).Nodup) {c : Workers.Config (Task β) (Request β)}
    (hrun : Relation.ReflTransGen (Workers.Step system (fun _ _ _ => True) fun _ _ => True)
      (start isNpu data n) c) :
    c.shared.aborted = false ∧
    (∀ k, ((c.shared.pools k).pointers ++ c.work.flatMap (Request.held k)).Nodup ∧
      (c.shared.pools k).pointers ⊆ data k) ∧
    (∀ r ∈ c.work, r.phase = .idle → r.task = true → ∀ y,
      Relation.ReflTransGen Attempt (c.shared, r.startAcquire c.shared) y → y.2.phase = .idle →
      y.1 = c.shared ∧ y.2.bufferSet = r.bufferSet) ∧
    ((∀ r ∈ c.work, r.phase = .idle ∧ r.acquired = false ∧ r.late = false) →
      ∀ k, (c.shared.pools k).pointers.Perm (data k)) := by
  have hinv : Inv data c.shared c.work := by
    refine @Workers.invariant _ _ _ _ system _ _ (Inv data) (fun _ _ _ hperm h => h.perm hperm) ?_
      (fun _ _ a _ _ _ _ _ => a.elim) _ _ hrun (start_inv hdata)
    intro t r rest e t' new hinv _ hexec
    obtain ⟨⟨t'', r'⟩, hstep, heq⟩ := Option.map_eq_some_iff.mp hexec
    obtain ⟨rfl, rfl⟩ := Prod.mk.inj heq
    exact hinv.exec hstep
  refine ⟨hinv.aborted, fun k => ⟨?_, fun p hp => ?_⟩, fun r hr hidle htask y hy hfailed => ?_,
    fun hreset k => ?_⟩
  · exact (hinv.conserved.free k).nodup_iff.mpr (hinv.conserved.nodup k)
  · exact hinv.data k ▸ (hinv.conserved.free k).subset (List.mem_append_left _ hp)
  · obtain ⟨before, after, heq⟩ := List.append_of_mem hr
    have hfront := hinv.perm (heq ▸ List.perm_middle)
    exact failed_attempt hfront.conserved (hfront.wf r List.mem_cons_self) htask hidle hy hfailed
  · have hnone : c.work.flatMap (Request.held k) = [] := by
      refine List.flatMap_eq_nil_iff.mpr fun r hr => ?_
      obtain ⟨hidle, hacquired, hlate⟩ := hreset r hr
      have hset : r.bufferSet = none := by
        by_contra hset
        rcases (hinv.wf r hr).kept hset with hc | hc
        · exact Bool.false_ne_true (hacquired.symm.trans hc.1)
        · exact Bool.false_ne_true (hlate.symm.trans hc)
      simp only [Request.held, hidle, Request.kept, hset]
      rfl
    have hfree := hinv.conserved.free k
    rw [hnone, List.append_nil, hinv.data] at hfree
    exact hfree

end

abbrev Move := Workers.Choice Circumstances Empty

/-- A step of the `i`-th request; it begins `op` if it is idle. -/
def go (i : ℕ) (op : Op) : Move := .work i ⟨op, false⟩

/-- The `i`-th request gets a set. -/
def acquires (i : ℕ) : List Move := List.replicate 6 (go i .acquire)

/-- One buffer for the encoded output, and two of the other kinds. -/
def scarce (k : Pool) : List ℕ := if k = .encodedOutput then [1] else [1, 2]

/-- Two requests take buffers in turn. The second one waits in vain for the last kind and gives back
    what it has; it gets a set when the first one is reset. -/
def inTurn : List Move :=
  [go 0 .create, go 1 .create] ++ (List.replicate 3 [go 0 .acquire, go 1 .acquire]).flatten ++
    [go 0 .acquire, .work 1 ⟨.acquire, true⟩, go 1 .acquire, go 0 .acquire, go 1 .acquire,
      go 0 .acquire, go 1 .acquire, go 0 .reset, go 1 .acquire] ++
    List.replicate 4 (go 0 .reset) ++ acquires 1 ++ List.replicate 5 (go 1 .reset)

theorem buffers_conserved_in_turn : ∃ c : Workers.Config (Task ℕ) (Request ℕ),
    Workers.play system (fun _ _ _ => True) (fun _ _ => True) (start true scarce 2) inTurn =
      some c ∧ ∀ k, (c.shared.pools k).pointers.Perm (scarce k) := by
  have hplay : ∃ c : Workers.Config (Task ℕ) (Request ℕ),
      Workers.play system (fun _ _ _ => True) (fun _ _ => True) (start true scarce 2) inTurn =
        some c ∧ c.work = List.replicate 2 Request.fresh := ⟨_, rfl, rfl⟩
  obtain ⟨c, hc, hwork⟩ := hplay
  have hnodup : ∀ k, (scarce k).Nodup := fun k => by cases k <;> decide
  refine ⟨c, hc, (buffers_conserved hnodup (Workers.play_run hc)).2.2.2 fun r hr => ?_⟩
  rw [hwork] at hr
  obtain rfl := List.eq_of_mem_replicate hr
  exact ⟨rfl, rfl, rfl⟩

/-- The buffers of a request are released before it gets any; it gets a set and is reset. -/
def releasedBefore : List Move :=
  [go 0 .create, go 0 .releaseBuffers] ++ acquires 0 ++ [go 0 .reset]

/-- The first request gives back a buffer, and the second one gets it. -/
def handedOver : List Move :=
  go 0 .create :: acquires 0 ++ List.replicate 2 (go 0 .releaseBuffers) ++ go 1 .create :: acquires 1

/-- A request that is reset keeps its set if its buffers were released before; and a buffer is in
    two sets while the first of them is released. -/
theorem set_outlives_reset :
    (∃ c : Workers.Config (Task ℕ) (Request ℕ),
      Relation.ReflTransGen (Workers.Step system (fun _ _ _ => True) fun _ _ => True)
        (start true (fun _ => [1]) 1) c ∧
      (∀ r ∈ c.work, r.phase = .idle ∧ r.task = false ∧ r.acquired = false) ∧
      ∀ k, (c.shared.pools k).pointers = []) ∧
    ∃ c : Workers.Config (Task ℕ) (Request ℕ),
      Relation.ReflTransGen (Workers.Step system (fun _ _ _ => True) fun _ _ => True)
        (start true scarce 2) c ∧
      ∀ r ∈ c.work, r.kept .encodedOutput = some 1 := by
  have hreset : ∃ c : Workers.Config (Task ℕ) (Request ℕ),
      Workers.play system (fun _ _ _ => True) (fun _ _ => True) (start true (fun _ => [1]) 1)
        releasedBefore = some c ∧
      (∀ r ∈ c.work, r.phase = .idle ∧ r.task = false ∧ r.acquired = false) ∧
      ∀ k, (c.shared.pools k).pointers = [] :=
    ⟨_, rfl, List.forall_mem_singleton.mpr ⟨rfl, rfl, rfl⟩, fun k => by cases k <;> rfl⟩
  have hhanded : ∃ c : Workers.Config (Task ℕ) (Request ℕ),
      Workers.play system (fun _ _ _ => True) (fun _ _ => True)
        (start true scarce 2) handedOver = some c ∧
      ∀ r ∈ c.work, r.kept .encodedOutput = some 1 :=
    ⟨_, rfl, List.forall_mem_cons.mpr ⟨rfl, List.forall_mem_singleton.mpr rfl⟩⟩
  obtain ⟨c, hc, hreset⟩ := hreset
  obtain ⟨d, hd, hhanded⟩ := hhanded
  exact ⟨⟨c, Workers.play_run hc, hreset⟩, d, Workers.play_run hd, hhanded⟩

end DxRt.TaskBuffers
