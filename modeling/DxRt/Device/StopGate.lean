import DxRt.Lib.Workers

/-! lib/device_pool/stop_gate.cpp: the gate that keeps DMA away from a device under recovery.

    Who wants to use the device passes the gate and holds a `Pass` for as long as it does. Who wants
    it to itself stops the gate and waits until no pass is left. Every section of the mutex is one
    step, together with what its thread does to its own passes before the next one. A wait looks at
    its condition again at any time, so that `notify_all` adds nothing. -/

namespace DxRt

structure StopGate where
  stopFlag : Bool
  shuttingDown : Bool
  activePasses : ℕ

namespace StopGate

/-- A pass of this gate, or of none. -/
structure Pass where
  /-- `gate_ != nullptr`. -/
  gate : Bool
  active : Bool
  deriving DecidableEq

def releasePass (g : StopGate) : StopGate :=
  if 0 < g.activePasses then { g with activePasses := g.activePasses - 1 } else g

namespace Pass

def empty : Pass := ⟨false, false⟩

/-- `Release`, and so the destructor. -/
def release (p : Pass) (g : StopGate) : Pass × StopGate :=
  if p.gate = false ∨ p.active = false then (p, g) else (⟨false, false⟩, g.releasePass)

/-- `Pass(Pass&& other)`: the new pass, and what is left of the other. -/
def moveConstruct (other : Pass) : Pass × Pass := (⟨other.gate, other.active⟩, ⟨false, false⟩)

/-- `operator=(Pass&& other)`, for another pass than itself. -/
def moveAssign (this other : Pass) (g : StopGate) : (Pass × Pass) × StopGate :=
  ((⟨other.gate, other.active⟩, ⟨false, false⟩), (this.release g).2)

end Pass

/-- A section of `WaitIfStopped`; `none` if it goes on waiting. -/
def waitIfStopped (g : StopGate) : Option (Pass × StopGate) :=
  if g.stopFlag = true ∧ g.shuttingDown = false then none
  else if g.shuttingDown then some (.empty, g)
  else some (⟨true, true⟩, { g with activePasses := g.activePasses + 1 })

/-- What `SetStop(true)` waits for. -/
def drained (g : StopGate) : Bool := g.shuttingDown || g.activePasses == 0

/-- `SetStop(false)`. -/
def resume (g : StopGate) : StopGate := if g.shuttingDown then g else { g with stopFlag := false }

def shutdown (g : StopGate) : StopGate := { g with shuttingDown := true, stopFlag := false }

/-! ### Threads -/

inductive Event where
  /-- A call of `SetStop(true)`, by its number, and its return. -/
  | setStop (call : ℕ)
  | stopped (call : ℕ)
  /-- `SetStop(false)`. -/
  | resumed
  | shutdown
  | acquired
  deriving DecidableEq

/-- The gate, the passes that exist, and what has happened, the last first. -/
structure State where
  gate : StopGate
  passes : List Pass
  calls : ℕ
  log : List Event

def init : State := ⟨⟨false, false, 0⟩, [], 0, []⟩

/-- The threads that wait. -/
inductive Work where
  | waitIfStopped
  | setStop (call : ℕ)

/-- What a thread calls, and what it does to the passes, by their position. -/
inductive Arrival where
  | waitIfStopped
  | setStop (stop : Bool)
  | shutdown
  | moveConstruct (i : ℕ)
  | moveAssign (i j : ℕ)
  | release (i : ℕ)
  | destroy (i : ℕ)

/-- The condition of a `SetStop(true)`. -/
def State.waitDrained (s : State) (call : ℕ) : State × List Work :=
  if s.gate.drained then ({ s with log := .stopped call :: s.log }, []) else (s, [.setStop call])

def State.setStop (s : State) : State × List Work :=
  let s' := { s with calls := s.calls + 1, log := .setStop s.calls :: s.log }
  if s.gate.shuttingDown then ({ s' with log := .stopped s.calls :: s'.log }, [])
  else { s' with gate := { s.gate with stopFlag := true } }.waitDrained s.calls

def State.release (s : State) (i : ℕ) : Option State :=
  s.passes[i]?.map fun p =>
    { s with passes := s.passes.set i (p.release s.gate).1, gate := (p.release s.gate).2 }

def State.moveConstruct (s : State) (i : ℕ) : Option State :=
  s.passes[i]?.map fun other =>
    { s with passes := other.moveConstruct.1 :: s.passes.set i other.moveConstruct.2 }

def State.moveAssign (s : State) (i j : ℕ) : Option State :=
  s.passes[i]?.bind fun this => s.passes[j]?.map fun other =>
    if i = j then s
    else
      let r := this.moveAssign other s.gate
      { s with passes := (s.passes.set i r.1.1).set j r.1.2, gate := r.2 }

def exec (s : State) (w : Work) (_ : Unit) : Option (State × List Work) :=
  match w with
  | .waitIfStopped =>
    match s.gate.waitIfStopped with
    | none => some (s, [.waitIfStopped])
    | some (p, g) =>
      let log := if p.active then .acquired :: s.log else s.log
      some ({ s with gate := g, passes := p :: s.passes, log }, [])
  | .setStop call => some (s.waitDrained call)

def arrive (s : State) : Arrival → Option (State × List Work)
  | .waitIfStopped => some (s, [.waitIfStopped])
  | .setStop true => some s.setStop
  | .setStop false => some ({ s with gate := s.gate.resume, log := .resumed :: s.log }, [])
  | .shutdown => some ({ s with gate := s.gate.shutdown, log := .shutdown :: s.log }, [])
  | .moveConstruct i => (s.moveConstruct i).map (·, [])
  | .moveAssign i j => (s.moveAssign i j).map (·, [])
  | .release i => (s.release i).map (·, [])
  | .destroy i => (s.release i).map fun s => ({ s with passes := s.passes.eraseIdx i }, [])

def system : Workers.System State Work Unit Arrival := ⟨exec, arrive⟩

/-! ### The invariant -/

/-- The gate knows how many passes are active. Once a `SetStop(true)` has been called the gate is
    stopped, and once it has returned no pass is active and none has been acquired since, all of this
    as long as the gate is not resumed or shut down. -/
structure Inv (s : State) : Prop where
  counted : s.gate.activePasses = s.passes.countP Pass.active
  whole : ∀ p ∈ s.passes, p.active = true → p.gate = true
  up : .shutdown ∉ s.log → s.gate.shuttingDown = false
  stopped : ∀ call later earlier, s.log = later ++ .setStop call :: earlier → .resumed ∉ later →
    .shutdown ∉ s.log → s.gate.stopFlag = true
  drained : ∀ call later during earlier,
    s.log = later ++ .stopped call :: during ++ .setStop call :: earlier →
    .resumed ∉ later → .resumed ∉ during → .shutdown ∉ s.log →
    s.gate.activePasses = 0 ∧ .acquired ∉ later

theorem inv_init : Inv init where
  counted := rfl
  whole _ h := nomatch h
  up _ := rfl
  stopped _ later _ h := by cases later <;> cases h
  drained _ later _ _ h := by cases later <;> cases h

variable {s s' : State} {p this other : Pass} {g : StopGate} {i j : ℕ}

/-- A step that is not logged: passes are moved and released. -/
theorem Inv.quiet {passes : List Pass} (h : Inv s)
    (hcounted : g.activePasses = passes.countP Pass.active)
    (hwhole : ∀ p ∈ passes, p.active = true → p.gate = true)
    (hflag : g.stopFlag = s.gate.stopFlag) (hdown : g.shuttingDown = s.gate.shuttingDown)
    (hle : g.activePasses ≤ s.gate.activePasses) : Inv { s with gate := g, passes } where
  counted := hcounted
  whole := hwhole
  up hlog := hdown.trans (h.up hlog)
  stopped call later earlier hlog hresumed hup :=
    hflag.trans (h.stopped call later earlier hlog hresumed hup)
  drained call later during earlier hlog hlater hduring hup := by
    obtain ⟨hzero, hnone⟩ := h.drained call later during earlier hlog hlater hduring hup
    exact ⟨Nat.eq_zero_of_le_zero (hle.trans_eq hzero), hnone⟩

/-- A step that is logged. -/
theorem Inv.logged {passes : List Pass} {calls : ℕ} {e : Event} (h : Inv s)
    (hcounted : g.activePasses = passes.countP Pass.active)
    (hwhole : ∀ p ∈ passes, p.active = true → p.gate = true)
    (hdown : e ≠ .shutdown → g.shuttingDown = s.gate.shuttingDown)
    (hflag : e ≠ .resumed → e ≠ .shutdown → s.gate.stopFlag = true → g.stopFlag = true)
    (hset : ∀ call, e = .setStop call → s.gate.shuttingDown = false → g.stopFlag = true)
    (hstopped : ∀ call, e = .stopped call → s.gate.shuttingDown = false → g.activePasses = 0)
    (hacquired : e = .acquired → s.gate.stopFlag = false)
    (hle : e ≠ .acquired → g.activePasses ≤ s.gate.activePasses) :
    Inv ⟨g, passes, calls, e :: s.log⟩ where
  counted := hcounted
  whole := hwhole
  up hlog := by
    rw [List.mem_cons, not_or] at hlog
    exact (hdown (Ne.symm hlog.1)).trans (h.up hlog.2)
  stopped call later earlier hlog hresumed hup := by
    rw [List.mem_cons, not_or] at hup
    cases later with
    | nil =>
      obtain ⟨rfl, -⟩ := List.cons.inj hlog
      exact hset call rfl (h.up hup.2)
    | cons e' later =>
      obtain ⟨rfl, htail⟩ := List.cons.inj hlog
      rw [List.mem_cons, not_or] at hresumed
      exact hflag (Ne.symm hresumed.1) (Ne.symm hup.1)
        (h.stopped call later earlier htail hresumed.2 hup.2)
  drained call later during earlier hlog hlater hduring hup := by
    rw [List.mem_cons, not_or] at hup
    cases later with
    | nil =>
      obtain ⟨rfl, -⟩ := List.cons.inj hlog
      exact ⟨hstopped call rfl (h.up hup.2), List.not_mem_nil⟩
    | cons e' later =>
      obtain ⟨rfl, htail⟩ := List.cons.inj hlog
      rw [List.mem_cons, not_or] at hlater
      -- the gate has been stopped since the call, so that no pass was acquired now
      have hflagged : s.gate.stopFlag = true := by
        refine h.stopped call (later ++ .stopped call :: during) earlier htail ?_ hup.2
        simp [hlater.2, hduring]
      have hne : e ≠ .acquired := by
        intro heq
        rw [hacquired heq] at hflagged
        cases hflagged
      obtain ⟨hzero, hnone⟩ := h.drained call later during earlier htail hlater.2 hduring hup.2
      refine ⟨Nat.eq_zero_of_le_zero ((hle hne).trans_eq hzero), ?_⟩
      rw [List.mem_cons, not_or]
      exact ⟨Ne.symm hne, hnone⟩

/-! ### Passes -/

theorem countP_set_add {α : Type*} {l : List α} {a : α} (P : α → Bool) (h : l[i]? = some a) (b : α) :
    (l.set i b).countP P + (if P a then 1 else 0) = l.countP P + if P b then 1 else 0 := by
  obtain ⟨hi, rfl⟩ := List.getElem?_eq_some_iff.mp h
  have hle : (if P l[i] then 1 else 0) ≤ l.countP P := by
    split_ifs with hP
    · exact List.countP_pos_iff.mpr ⟨_, List.getElem_mem hi, hP⟩
    · exact Nat.zero_le _
  rw [List.countP_set hi]
  omega

/-- A released pass is not active, and is no longer counted. -/
theorem release_spec (hcount : p.active = true → 0 < g.activePasses)
    (hwhole : p.active = true → p.gate = true) :
    (p.release g).1.active = false ∧
    (p.release g).2.activePasses + (if p.active then 1 else 0) = g.activePasses ∧
    (p.release g).2.stopFlag = g.stopFlag ∧ (p.release g).2.shuttingDown = g.shuttingDown := by
  obtain ⟨gate, active⟩ := p
  cases active with
  | false => simp [Pass.release]
  | true =>
    obtain rfl : gate = true := hwhole rfl
    have hpos : 0 < g.activePasses := hcount rfl
    simp only [Pass.release, releasePass, Bool.true_eq_false, or_self, if_false, hpos, if_true,
      true_and, and_true]
    omega

theorem Inv.pos (h : Inv s) (hi : s.passes[i]? = some p) (hp : p.active = true) :
    0 < s.gate.activePasses := by
  rw [h.counted]
  exact List.countP_pos_iff.mpr ⟨p, List.mem_of_getElem? hi, hp⟩

theorem Inv.release (h : Inv s) (hi : s.release i = some s') : Inv s' := by
  obtain ⟨p, hp, rfl⟩ := Option.map_eq_some_iff.mp hi
  obtain ⟨hactive, hcount, hflag, hdown⟩ := release_spec (g := s.gate) (h.pos hp)
    (h.whole p (List.mem_of_getElem? hp))
  refine h.quiet ?_ (fun q hq hqa => ?_) hflag hdown (by omega)
  · have hset := countP_set_add Pass.active hp (p.release s.gate).1
    have hcounted := h.counted
    rw [hactive] at hset
    simp only [Bool.false_eq_true, if_false] at hset
    omega
  · rcases List.mem_or_eq_of_mem_set hq with hold | rfl
    · exact h.whole q hold hqa
    · rw [hactive] at hqa
      cases hqa

theorem Inv.destroy (h : Inv s) (hi : s.release i = some s') :
    Inv { s' with passes := s'.passes.eraseIdx i } := by
  have hrel := h.release hi
  obtain ⟨p, hp, rfl⟩ := Option.map_eq_some_iff.mp hi
  obtain ⟨hactive, -⟩ := release_spec (g := s.gate) (h.pos hp) (h.whole p (List.mem_of_getElem? hp))
  obtain ⟨hlt, -⟩ := List.getElem?_eq_some_iff.mp hp
  refine hrel.quiet (hrel.counted.trans ?_) (fun q hq => hrel.whole q (List.mem_of_mem_eraseIdx hq))
    rfl rfl le_rfl
  -- the pass that is taken away is not active any more
  have hset : i < (s.passes.set i (p.release s.gate).1).length := by rwa [List.length_set]
  rw [List.eraseIdx_eq_take_drop_succ]
  conv_lhs => rw [← List.take_append_drop i (s.passes.set i _), List.drop_eq_getElem_cons hset,
    List.countP_append, List.countP_cons_of_neg (by simp [hactive])]
  rw [List.countP_append]

theorem Inv.moveConstruct (h : Inv s) (hi : s.moveConstruct i = some s') : Inv s' := by
  obtain ⟨p, hp, rfl⟩ := Option.map_eq_some_iff.mp hi
  refine h.quiet (g := s.gate) ?_ (fun q hq hqa => ?_) rfl rfl le_rfl
  · have hset := countP_set_add Pass.active hp ⟨false, false⟩
    have hcounted := h.counted
    show _ = ((⟨p.gate, p.active⟩ : Pass) :: s.passes.set i ⟨false, false⟩).countP Pass.active
    simp only [Bool.false_eq_true, if_false] at hset
    rw [List.countP_cons]
    show _ = _ + if p.active = true then 1 else 0
    omega
  · rcases List.mem_cons.mp hq with rfl | hq
    · exact h.whole p (List.mem_of_getElem? hp) hqa
    · rcases List.mem_or_eq_of_mem_set hq with hold | rfl
      · exact h.whole q hold hqa
      · cases hqa

theorem Inv.moveAssign (h : Inv s) (hi : s.moveAssign i j = some s') : Inv s' := by
  obtain ⟨this, hthis, hj⟩ := Option.bind_eq_some_iff.mp hi
  obtain ⟨other, hother, rfl⟩ := Option.map_eq_some_iff.mp hj
  split_ifs with hij
  · exact h
  · obtain ⟨-, hcount, hflag, hdown⟩ := release_spec (g := s.gate) (h.pos hthis)
      (h.whole this (List.mem_of_getElem? hthis))
    refine h.quiet ?_ (fun q hq hqa => ?_) hflag hdown (by simp only [Pass.moveAssign]; omega)
    · have hcounted := h.counted
      have hset := countP_set_add Pass.active hthis ⟨other.gate, other.active⟩
      have hother' : (s.passes.set i ⟨other.gate, other.active⟩)[j]? = some other := by
        rw [List.getElem?_set_ne hij, hother]
      have hset' := countP_set_add Pass.active hother' ⟨false, false⟩
      simp only [Pass.moveAssign, Bool.false_eq_true, if_false] at hset hset' ⊢
      omega
    · rcases List.mem_or_eq_of_mem_set hq with hq | rfl
      · rcases List.mem_or_eq_of_mem_set hq with hold | rfl
        · exact h.whole q hold hqa
        · exact h.whole other (List.mem_of_getElem? hother) hqa
      · cases hqa

/-! ### Threads -/

theorem Inv.waitDrained {call : ℕ} (h : Inv s) : Inv (s.waitDrained call).1 := by
  rw [State.waitDrained]
  split_ifs with hdrained
  · refine h.logged h.counted h.whole (fun _ => rfl) (fun _ _ => id) nofun (fun _ _ hup => ?_)
      nofun fun _ => le_rfl
    simpa [StopGate.drained, hup] using hdrained
  · exact h

theorem Inv.setStop (h : Inv s) : Inv s.setStop.1 := by
  rw [State.setStop]
  split_ifs with hdown
  · have hcall : Inv { s with calls := s.calls + 1, log := .setStop s.calls :: s.log } :=
      h.logged h.counted h.whole (fun _ => rfl) (fun _ _ => id)
        (fun _ _ hup => absurd (hup.symm.trans hdown) nofun) nofun nofun fun _ => le_rfl
    exact hcall.logged h.counted h.whole (fun _ => rfl) (fun _ _ => id) nofun
      (fun _ _ hup => absurd (hup.symm.trans hdown) nofun) nofun fun _ => le_rfl
  · have hcall : Inv ⟨{ s.gate with stopFlag := true }, s.passes, s.calls + 1,
        .setStop s.calls :: s.log⟩ :=
      h.logged h.counted h.whole (fun _ => rfl) (fun _ _ _ => rfl) (fun _ _ _ => rfl) nofun nofun
        fun _ => le_rfl
    exact hcall.waitDrained

theorem Inv.waitIfStopped (h : Inv s) (hpass : s.gate.waitIfStopped = some (p, g)) :
    Inv { s with gate := g, passes := p :: s.passes,
                 log := if p.active then .acquired :: s.log else s.log } := by
  rw [StopGate.waitIfStopped] at hpass
  split_ifs at hpass with hwait hdown
  · obtain ⟨rfl, rfl⟩ := Prod.mk.inj (Option.some.inj hpass)
    refine h.quiet (g := s.gate) ?_ (fun q hq hqa => ?_) rfl rfl le_rfl
    · rw [List.countP_cons_of_neg (by simp [Pass.empty])]
      exact h.counted
    · rcases List.mem_cons.mp hq with rfl | hq
      · cases hqa
      · exact h.whole q hq hqa
  · obtain ⟨rfl, rfl⟩ := Prod.mk.inj (Option.some.inj hpass)
    refine h.logged (g := { s.gate with activePasses := s.gate.activePasses + 1 }) ?_
      (fun q hq hqa => ?_) (fun _ => rfl) (fun _ _ => id) nofun nofun (fun _ => ?_) nofun
    · rw [List.countP_cons_of_pos rfl, ← h.counted]
    · rcases List.mem_cons.mp hq with rfl | hq
      · rfl
      · exact h.whole q hq hqa
    · cases hflag : s.gate.stopFlag with
      | false => rfl
      | true => exact absurd ⟨hflag, by simpa using hdown⟩ hwait

theorem Inv.exec {w : Work} (e : Unit) {new : List Work} (h : Inv s)
    (hexec : exec s w e = some (s', new)) : Inv s' := by
  cases w with
  | waitIfStopped =>
    rw [StopGate.exec] at hexec
    cases hpass : s.gate.waitIfStopped with
    | none =>
      simp only [hpass] at hexec
      obtain ⟨rfl, -⟩ := Prod.mk.inj (Option.some.inj hexec)
      exact h
    | some r =>
      simp only [hpass] at hexec
      obtain ⟨rfl, -⟩ := Prod.mk.inj (Option.some.inj hexec)
      exact h.waitIfStopped hpass
  | setStop call =>
    have heq : s.waitDrained call = (s', new) := Option.some.inj hexec
    have hinv : Inv (s.waitDrained call).1 := h.waitDrained
    rwa [heq] at hinv

theorem Inv.arrive {a : Arrival} {new : List Work} (h : Inv s)
    (harrive : arrive s a = some (s', new)) : Inv s' := by
  cases a with
  | waitIfStopped =>
    obtain ⟨rfl, -⟩ := Prod.mk.inj (Option.some.inj harrive)
    exact h
  | setStop stop =>
    cases stop with
    | true =>
      have heq : s.setStop = (s', new) := Option.some.inj harrive
      have hinv := h.setStop
      rwa [heq] at hinv
    | false =>
      obtain ⟨rfl, -⟩ := Prod.mk.inj (Option.some.inj harrive)
      rw [resume]
      split_ifs with hdown
      · exact h.logged h.counted h.whole (fun _ => rfl) nofun nofun nofun nofun fun _ => le_rfl
      · exact h.logged (g := { s.gate with stopFlag := false }) h.counted h.whole (fun _ => rfl)
          (fun hne => absurd rfl hne) nofun nofun nofun fun _ => le_rfl
  | shutdown =>
    obtain ⟨rfl, -⟩ := Prod.mk.inj (Option.some.inj harrive)
    exact h.logged (g := s.gate.shutdown) h.counted h.whole (fun hne => absurd rfl hne)
      (fun _ hne => absurd rfl hne) nofun nofun nofun fun _ => le_rfl
  | moveConstruct i =>
    obtain ⟨s₁, hmove, heq⟩ := Option.map_eq_some_iff.mp harrive
    obtain ⟨rfl, -⟩ := Prod.mk.inj heq
    exact h.moveConstruct hmove
  | moveAssign i j =>
    obtain ⟨s₁, hmove, heq⟩ := Option.map_eq_some_iff.mp harrive
    obtain ⟨rfl, -⟩ := Prod.mk.inj heq
    exact h.moveAssign hmove
  | release i =>
    obtain ⟨s₁, hrelease, heq⟩ := Option.map_eq_some_iff.mp harrive
    obtain ⟨rfl, -⟩ := Prod.mk.inj heq
    exact h.release hrelease
  | destroy i =>
    obtain ⟨s₁, hrelease, heq⟩ := Option.map_eq_some_iff.mp harrive
    obtain ⟨rfl, -⟩ := Prod.mk.inj heq
    exact h.destroy hrelease

/-! ### Runs -/

/-- The passes that are active are those the gate counts; and between the return of a
    `SetStop(true)` and the next `SetStop(false)` or `Shutdown` there is none, and none is acquired,
    unless the gate was resumed while the call waited, or was shut down before it returned. -/
structure Guards (s : State) : Prop where
  counted : s.gate.activePasses = s.passes.countP Pass.active
  closed : ∀ call later during earlier,
    s.log = later ++ .stopped call :: during ++ .setStop call :: earlier →
    .resumed ∉ later → .resumed ∉ during → .shutdown ∉ s.log →
    (∀ p ∈ s.passes, p.active = false) ∧ .acquired ∉ later

theorem Inv.guards (h : Inv s) : Guards s where
  counted := h.counted
  closed call later during earlier hlog hlater hduring hup := by
    obtain ⟨hzero, hnone⟩ := h.drained call later during earlier hlog hlater hduring hup
    rw [h.counted, List.countP_eq_zero] at hzero
    exact ⟨fun p hp => by simpa using hzero p hp, hnone⟩

theorem gate_guards {c : Workers.Config State Work}
    (hrun : Relation.ReflTransGen (Workers.Step system (fun _ _ _ => True) fun _ _ => True)
      ⟨init, []⟩ c) : Guards c.shared := by
  have hinv : Inv c.shared := @Workers.invariant _ _ _ _ system _ _ (fun s _ => Inv s)
    (fun _ _ _ _ h => h) (fun _ _ _ e _ _ h _ hexec => h.exec e hexec)
    (fun _ _ _ _ _ h _ harrive => h.arrive harrive) _ _ hrun inv_init
  exact hinv.guards

/-- A pass is moved; the gate is stopped, which has another thread wait; the pass is destroyed. -/
def stopWhilePassing : List (Workers.Choice Unit Arrival) :=
  [.arrive .waitIfStopped, .work 0 (), .arrive (.moveConstruct 0), .arrive (.setStop true),
    .arrive .waitIfStopped, .work 0 (), .work 1 (), .arrive (.destroy 0), .work 1 (), .work 0 ()]

theorem gate_guards_stop_while_passing : ∃ c, Workers.play system (fun _ _ _ => True)
    (fun _ _ => True) ⟨init, []⟩ stopWhilePassing = some c ∧ c.work = [.waitIfStopped] ∧
    c.shared.log = [.stopped 0, .setStop 0, .acquired] ∧ Guards c.shared := by
  have hplay : ∃ c, Workers.play system (fun _ _ _ => True) (fun _ _ => True) ⟨init, []⟩
      stopWhilePassing = some c ∧ c.work = [.waitIfStopped] ∧
      c.shared.log = [.stopped 0, .setStop 0, .acquired] := ⟨_, rfl, rfl, rfl⟩
  obtain ⟨c, hc, hwork, hlog⟩ := hplay
  exact ⟨c, hc, hwork, hlog, gate_guards (Workers.play_run hc)⟩

/-- A thread has a pass, another stops the gate and waits, a third shuts the gate down. -/
def shutdownWhileWaiting : List (Workers.Choice Unit Arrival) :=
  [.arrive .waitIfStopped, .work 0 (), .arrive (.setStop true), .arrive .shutdown, .work 0 ()]

/-- A gate that is shut down lets `SetStop(true)` return although a pass is active. -/
theorem stopped_by_shutdown : ∃ c, Workers.play system (fun _ _ _ => True) (fun _ _ => True)
    ⟨init, []⟩ shutdownWhileWaiting = some c ∧
    (∃ during earlier, c.shared.log = [] ++ .stopped 0 :: during ++ .setStop 0 :: earlier ∧
      .resumed ∉ during) ∧ ∃ p ∈ c.shared.passes, p.active = true :=
  ⟨_, rfl, ⟨[.shutdown], [.acquired], rfl, by decide⟩, ⟨true, true⟩, by decide, rfl⟩

end StopGate
end DxRt
