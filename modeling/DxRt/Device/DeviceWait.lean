import DxRt.Device.Pipeline
import DxRt.Lib.Run

/-! lib/device_pool/device_pool.cpp: `PickOneDevice`, the wait for a device.

    One thread at a time is in `PickOneDevice`, under `_methodMutex`. It looks at the devices of its
    task under `_deviceMutex`, field by field, while other threads count them down, block or unblock
    them without any lock; it sleeps on `_deviceCV` when no device has room. `CallBack` counts down,
    and only then does `AwakeDevice` take `_deviceMutex` and notify. -/

namespace DxRt.DeviceWait
open Pipeline

/-- `pickDeviceIndex` on its way through the devices. -/
structure Scan (n : ℕ) where
  /-- The devices that are left. -/
  todo : List (Fin n)
  /-- The first of them was not blocked; its load is read next. -/
  unblocked : Bool
  best : Option (Fin n)
  load : ℤ
  blockCount : ℕ
  /-- The 3000 seconds are over. -/
  timedOut : Bool

inductive Phase (n : ℕ) where
  | scan (scan : Scan n)
  | asleep
  | notified

/-- The thread in `PickOneDevice`, for which request and with which devices. -/
structure Picker (n : ℕ) where
  r : ℕ
  deviceIds : List (Fin n)
  phase : Phase n

structure State (n : ℕ) where
  pool : DevicePool n
  picker : Option (Picker n)
  /-- The calls of `CallBack` that have counted down and not yet notified. -/
  pending : ℕ

/-- What a thread does next; `look` is a step of the thread in `PickOneDevice`. -/
inductive Action (n : ℕ) where
  | enter (r : ℕ) (deviceIds : List (Fin n))
  | look
  | wake (timedOut : Bool)
  | callBack (d : Fin n) (r : ℕ)
  | awakeDevice
  | block (d : Fin n)
  | unblock (d : Fin n)

variable {n : ℕ}

def Scan.begin (deviceIds : List (Fin n)) (curDevIdx : ℕ) (timedOut : Bool) : Scan n :=
  ⟨deviceIds.rotate curDevIdx, false, none, 2 ^ 31 - 1, 0, timedOut⟩

def Phase.isScan : Phase n → Bool
  | .scan _ => true
  | .asleep | .notified => false

namespace State

/-- The end of a scan: an exception, a pick, or sleep. -/
def decide (s : State n) (p : Picker n) (scan : Scan n) : State n :=
  if p.deviceIds.length ≤ scan.blockCount then { s with picker := none }
  else
    match scan.best with
    | some d => { s with pool := s.pool.pick d p.r, picker := none }
    | none =>
      if scan.timedOut then { s with picker := none }
      else { s with picker := some { p with phase := .asleep } }

/-- One access of a scan: `isBlocked`, then `load` of a device that is not blocked. -/
def look (s : State n) (p : Picker n) (scan : Scan n) : State n :=
  match scan.todo with
  | [] => s.decide p scan
  | d :: todo =>
    let next : Scan n :=
      if scan.unblocked then
        let layer := s.pool.taskLayers d
        if layer.load < layer.type.fullLoad ∧ layer.load < scan.load then
          { scan with todo := todo, unblocked := false, best := some d, load := layer.load }
        else { scan with todo := todo, unblocked := false }
      else if (s.pool.taskLayers d).blocked then
        { scan with todo := todo, blockCount := scan.blockCount + 1 }
      else { scan with unblocked := true }
    { s with picker := some { p with phase := .scan next } }

/-- A sleeper wakes when it is notified, when the time is over, or for no reason. -/
def wake (s : State n) (p : Picker n) (timedOut : Bool) : State n :=
  { s with
    picker := some { p with phase := .scan (.begin p.deviceIds s.pool.curDevIdx timedOut) } }

/-- `notify_all`. -/
def Picker.notify (p : Picker n) : Picker n :=
  match p.phase with
  | .asleep => { p with phase := .notified }
  | .scan _ | .notified => p

/-- `_deviceMutex` is free. -/
def unlocked (s : State n) : Bool :=
  match s.picker with
  | none => true
  | some p => !p.phase.isScan

def exec (s : State n) : Action n → Option (State n)
  | .enter r deviceIds =>
    match s.picker with
    | none =>
      if deviceIds = [] then none
      else some { s with
        picker := some ⟨r, deviceIds, .scan (.begin deviceIds s.pool.curDevIdx false)⟩ }
    | some _ => none
  | .look =>
    match s.picker with
    | some p =>
      match p.phase with
      | .scan scan => some (s.look p scan)
      | .asleep | .notified => none
    | none => none
  | .wake timedOut =>
    match s.picker with
    | some p => if p.phase.isScan then none else some (s.wake p timedOut)
    | none => none
  | .callBack d r =>
    -- a request that holds a slot has counted the device up
    if 0 < (s.pool.taskLayers d).load then
      some { s with pool := s.pool.callBack d r, pending := s.pending + 1 }
    else none
  | .awakeDevice =>
    if 0 < s.pending ∧ s.unlocked = true then
      some { s with pending := s.pending - 1, picker := s.picker.map Picker.notify }
    else none
  | .block d => some { s with pool := s.pool.block d }
  | .unblock d =>
    some { s with pool := s.pool.setLayer d { s.pool.taskLayers d with blocked := false } }

/-- The thread in `PickOneDevice` looks at the devices, or sleeps. -/
def onWatch (s : State n) : Bool :=
  match s.picker with
  | none => false
  | some p =>
    match p.phase with
    | .scan _ | .asleep => true
    | .notified => false

/-- May devices be blocked, or unblocked, while a thread is on watch? -/
def Allowed (blocks unblocks : Bool) (s : State n) : Action n → Prop
  | .block _ => blocks = true ∨ s.onWatch = false
  | .unblock _ => unblocks = true ∨ s.onWatch = false
  | .enter .. | .look | .wake _ | .callBack .. | .awakeDevice => True

inductive Step (blocks unblocks : Bool) : State n → State n → Prop
  | exec {s t : State n} (a : Action n) (hallowed : s.Allowed blocks unblocks a)
      (hexec : s.exec a = some t) : Step blocks unblocks s t

/-- Nobody is in `PickOneDevice`, and no device has more requests than it takes. -/
structure Start (s : State n) : Prop where
  picker : s.picker = none
  load : ∀ d, 0 ≤ (s.pool.taskLayers d).load ∧
    (s.pool.taskLayers d).load ≤ (s.pool.taskLayers d).type.fullLoad

/-- The device would be picked. -/
def Idle (pool : DevicePool n) (d : Fin n) : Prop :=
  (pool.taskLayers d).blocked = false ∧
    (pool.taskLayers d).load < (pool.taskLayers d).type.fullLoad

/-- A sleeper that nobody is about to notify would go on sleeping, if it looked. -/
def Attentive (s : State n) : Prop :=
  ∀ p, s.picker = some p → p.phase = .asleep → s.pending = 0 →
    s.pool.pickDeviceIndex p.deviceIds = .ok none

/-! ### What happens to the devices -/

variable {s t : State n} {pool : DevicePool n} {d d' : Fin n} {r : ℕ} {p : Picker n}
  {scan : Scan n} {ids : List (Fin n)}

theorem fullLoad_bounds (type : DeviceType) : 0 < type.fullLoad ∧ type.fullLoad < 2 ^ 31 - 1 := by
  cases type <;> decide

theorem setLayer_apply (layer : TaskLayer) :
    (pool.setLayer d layer).taskLayers d' = if d' = d then layer else pool.taskLayers d' :=
  Function.update_apply _ _ _ _

theorem callBack_type : ((pool.callBack d r).taskLayers d').type = (pool.taskLayers d').type := by
  simp only [DevicePool.callBack, setLayer_apply]
  split_ifs with h
  · rw [h]
  · rfl

theorem callBack_load : ((pool.callBack d r).taskLayers d').load =
    (pool.taskLayers d').load - if d' = d then 1 else 0 := by
  simp only [DevicePool.callBack, setLayer_apply]
  split_ifs with h
  · rw [h]
  · exact (sub_zero _).symm

theorem pick_type : ((pool.pick d r).taskLayers d').type = (pool.taskLayers d').type := by
  simp only [DevicePool.pick, setLayer_apply]
  split_ifs with h
  · rw [h]
  · rfl

theorem pick_load : ((pool.pick d r).taskLayers d').load =
    (pool.taskLayers d').load + if d' = d then 1 else 0 := by
  simp only [DevicePool.pick, setLayer_apply]
  split_ifs with h
  · rw [h]
  · exact (add_zero _).symm

/-- Blocking and unblocking leave the counters. -/
structure SameLoads (pool pool' : DevicePool n) : Prop where
  type : ∀ d, (pool'.taskLayers d).type = (pool.taskLayers d).type
  load : ∀ d, (pool'.taskLayers d).load = (pool.taskLayers d).load

theorem sameLoads_setBlocked (pool : DevicePool n) (d : Fin n) (blocked : Bool) :
    SameLoads pool (pool.setLayer d { pool.taskLayers d with blocked := blocked }) := by
  constructor
  · intro d'
    rw [setLayer_apply]
    split_ifs with h
    · rw [h]
    · rfl
  · intro d'
    rw [setLayer_apply]
    split_ifs with h
    · rw [h]
    · rfl

/-! ### The cases of a step -/

/-- What a step does. -/
inductive Moves (blocks unblocks : Bool) (s : State n) : State n → Prop
  | begins (r : ℕ) (ids : List (Fin n)) (timedOut : Bool) :
    Moves blocks unblocks s
      { s with picker := some ⟨r, ids, .scan (.begin ids s.pool.curDevIdx timedOut)⟩ }
  | looks (p : Picker n) (scan : Scan n) (hp : s.picker = some p) (hphase : p.phase = .scan scan) :
    Moves blocks unblocks s (s.look p scan)
  | callsBack (d : Fin n) (r : ℕ) (hload : 0 < (s.pool.taskLayers d).load) :
    Moves blocks unblocks s { s with pool := s.pool.callBack d r, pending := s.pending + 1 }
  | notifies (hunlocked : s.unlocked = true) :
    Moves blocks unblocks s
      { s with pending := s.pending - 1, picker := s.picker.map Picker.notify }
  | sets (d : Fin n) (blocked : Bool)
    (hallowed : (if blocked then blocks else unblocks) = true ∨ s.onWatch = false) :
    Moves blocks unblocks s { s with
      pool := s.pool.setLayer d { s.pool.taskLayers d with blocked := blocked } }

variable {blocks unblocks : Bool}

theorem Step.moves (h : Step blocks unblocks s t) : Moves blocks unblocks s t := by
  obtain ⟨a, hallowed, hexec⟩ := h
  cases a with
  | enter r ids =>
    simp only [State.exec] at hexec
    cases hp : s.picker with
    | some p =>
      rw [hp] at hexec
      exact absurd hexec (Option.some_ne_none t).symm
    | none =>
      rw [hp] at hexec
      dsimp only at hexec
      split_ifs at hexec
      obtain rfl := Option.some.inj hexec
      exact .begins r ids false
  | look =>
    simp only [State.exec] at hexec
    cases hp : s.picker with
    | none =>
      rw [hp] at hexec
      exact absurd hexec (Option.some_ne_none t).symm
    | some p =>
      rw [hp] at hexec
      dsimp only at hexec
      cases hphase : p.phase with
      | scan scan =>
        rw [hphase] at hexec
        obtain rfl := Option.some.inj hexec
        exact .looks p scan hp hphase
      | asleep =>
        rw [hphase] at hexec
        exact absurd hexec (Option.some_ne_none t).symm
      | notified =>
        rw [hphase] at hexec
        exact absurd hexec (Option.some_ne_none t).symm
  | wake timedOut =>
    simp only [State.exec] at hexec
    cases hp : s.picker with
    | none =>
      rw [hp] at hexec
      exact absurd hexec (Option.some_ne_none t).symm
    | some p =>
      rw [hp] at hexec
      dsimp only at hexec
      split_ifs at hexec
      obtain rfl := Option.some.inj hexec
      exact .begins p.r p.deviceIds timedOut
  | callBack d r =>
    simp only [State.exec] at hexec
    split_ifs at hexec with hload
    obtain rfl := Option.some.inj hexec
    exact .callsBack d r hload
  | awakeDevice =>
    simp only [State.exec] at hexec
    split_ifs at hexec with hawake
    obtain rfl := Option.some.inj hexec
    exact .notifies hawake.2
  | block d =>
    obtain rfl := Option.some.inj hexec
    exact .sets d true hallowed
  | unblock d =>
    obtain rfl := Option.some.inj hexec
    exact .sets d false hallowed

/-! ### Runs -/

/-- A device of the second kind, with or without a request. -/
def layer (load : ℤ) (blocked : Bool) : TaskLayer := ⟨.std, load, blocked, .init, .empty, .empty⟩

/-- The first device is blocked, and all other ones are full. -/
def firstBlocked (n : ℕ) : State (n + 2) where
  pool := ⟨fun d => if d.val = 0 then layer 0 true else layer 1 false, 0, .empty, []⟩
  picker := none
  pending := 0

theorem start_firstBlocked (n : ℕ) : (firstBlocked n).Start := by
  refine ⟨rfl, fun d => ?_⟩
  simp only [firstBlocked]
  split_ifs <;> decide

/-- The actions one after the other, each allowed. -/
theorem run_of_exec {as : List (Action n)} (hallowed : ∀ a ∈ as, ∀ s, Allowed blocks unblocks s a)
    (hexec : as.foldlM State.exec s = some t) :
    Relation.ReflTransGen (Step blocks unblocks) s t := by
  induction as generalizing s with
  | nil =>
    obtain rfl := Option.some.inj hexec
    exact .refl
  | cons a as ih =>
    rw [List.foldlM_cons] at hexec
    obtain ⟨s', hs', hrest⟩ := Option.bind_eq_some_iff.mp hexec
    have hstep : Step blocks unblocks s s' := .exec a (hallowed a List.mem_cons_self s) hs'
    exact .head hstep (ih (fun a' ha' => hallowed a' (List.mem_cons_of_mem a ha')) hrest)

/-- A thread falls asleep over the first two devices. -/
def fallAsleep (n : ℕ) : List (Action (n + 2)) :=
  [.enter 0 [⟨0, n.succ.succ_pos⟩, ⟨1, Nat.one_lt_succ_succ n⟩], .look, .look, .look, .look]

/-! ### The sleeper is woken -/

/-- There is a notification to come, or a request of a device that is full. -/
def Awaited (pool : DevicePool n) (pending : ℕ) (ids : List (Fin n)) : Prop :=
  0 < pending ∨ ∃ d ∈ ids, (pool.taskLayers d).load = (pool.taskLayers d).type.fullLoad

/-- What a scan has found. -/
structure Found (pool : DevicePool n) (pending : ℕ) (ids : List (Fin n)) (scan : Scan n) :
    Prop where
  todo : ∀ d ∈ scan.todo, d ∈ ids
  best : ∀ d, scan.best = some d →
    (pool.taskLayers d).load < (pool.taskLayers d).type.fullLoad
  load : scan.best = none → scan.load = 2 ^ 31 - 1
  full : scan.best = none →
    ids.length ≤ scan.blockCount + scan.todo.length ∨ Awaited pool pending ids

/-- What holds of the thread in `PickOneDevice`. -/
def Sound (pool : DevicePool n) (pending : ℕ) (p : Picker n) : Prop :=
  match p.phase with
  | .scan scan => Found pool pending p.deviceIds scan
  | .asleep => Awaited pool pending p.deviceIds
  | .notified => True

structure Inv (s : State n) : Prop where
  load : ∀ d, 0 ≤ (s.pool.taskLayers d).load ∧
    (s.pool.taskLayers d).load ≤ (s.pool.taskLayers d).type.fullLoad
  sound : ∀ p, s.picker = some p → Sound s.pool s.pending p

theorem found_begin (pool : DevicePool n) (pending : ℕ) (ids : List (Fin n)) (timedOut : Bool) :
    Found pool pending ids (.begin ids pool.curDevIdx timedOut) where
  todo _ hd := List.mem_rotate.mp hd
  best _ hd := absurd hd (Option.some_ne_none _).symm
  load _ := rfl
  full _ := Or.inl (by rw [Scan.begin, List.length_rotate, Nat.zero_add])

/-- Without a thread in `PickOneDevice` only the counters matter. -/
theorem Inv.leave (h : s.Inv) : { s with picker := none }.Inv :=
  ⟨h.load, fun p hp => absurd hp (Option.some_ne_none p).symm⟩

theorem Inv.pick (h : s.Inv)
    (hroom : (s.pool.taskLayers d).load < (s.pool.taskLayers d).type.fullLoad) :
    { s with pool := s.pool.pick d r, picker := none }.Inv := by
  refine ⟨fun d' => ?_, fun p hp => absurd hp (Option.some_ne_none p).symm⟩
  have hload := h.load d'
  dsimp only
  rw [pick_load, pick_type]
  split_ifs with heq
  · subst heq
    omega
  · omega

/-- The end of a scan. -/
theorem Inv.decide (h : s.Inv) (hfound : Found s.pool s.pending p.deviceIds scan)
    (htodo : scan.todo = []) : (s.decide p scan).Inv := by
  rw [State.decide]
  rcases Nat.lt_or_ge scan.blockCount p.deviceIds.length with hcount | hcount
  · rw [if_neg (Nat.not_le.mpr hcount)]
    cases hbest : scan.best with
    | some d => exact h.pick (hfound.best d hbest)
    | none =>
      dsimp only
      split_ifs
      · exact h.leave
      refine ⟨h.load, fun q hq => ?_⟩
      obtain rfl := Option.some.inj hq
      rcases hfound.full hbest with hlength | hawaited
      · rw [htodo] at hlength
        exact absurd hlength (Nat.not_le.mpr hcount)
      · exact hawaited
  · rw [if_pos hcount]
    exact h.leave

/-- One access of a scan. -/
theorem Inv.look (h : s.Inv) (hfound : Found s.pool s.pending p.deviceIds scan) :
    (s.look p scan).Inv := by
  rw [State.look]
  cases htodo : scan.todo with
  | nil => exact h.decide hfound htodo
  | cons d todo =>
    refine ⟨h.load, fun q hq => ?_⟩
    obtain rfl := Option.some.inj hq
    have hmem : ∀ d' ∈ d :: todo, d' ∈ p.deviceIds := htodo ▸ hfound.todo
    have hrest : ∀ d' ∈ todo, d' ∈ p.deviceIds := fun d' hd' => hmem d' (List.mem_cons_of_mem d hd')
    have hfull := hfound.full
    rw [htodo, List.length_cons] at hfull
    simp only [Sound]
    split_ifs with hunblocked hbetter hblocked
    · exact ⟨hrest, fun d' hd' => Option.some.inj hd' ▸ hbetter.1, fun hbest => absurd hbest
        (Option.some_ne_none d), fun hbest => absurd hbest (Option.some_ne_none d)⟩
    · refine ⟨hrest, hfound.best, hfound.load, fun hbest => Or.inr (Or.inr ?_)⟩
      -- the load is below the bound of an `int`, so the device is full
      have hload := h.load d
      have hbound := fullLoad_bounds (s.pool.taskLayers d).type
      rw [hfound.load hbest] at hbetter
      exact ⟨d, hmem d List.mem_cons_self, by omega⟩
    · refine ⟨hrest, hfound.best, hfound.load, fun hbest => ?_⟩
      refine (hfull hbest).imp_left fun hlength => ?_
      dsimp only
      omega
    · exact ⟨hmem, hfound.best, hfound.load, hfull⟩

theorem Inv.callBack (h : s.Inv) (hload : 0 < (s.pool.taskLayers d).load) :
    { s with pool := s.pool.callBack d r, pending := s.pending + 1 }.Inv := by
  refine ⟨fun d' => ?_, fun p hp => ?_⟩
  · have hd' := h.load d'
    dsimp only
    rw [callBack_load, callBack_type]
    split_ifs with heq
    · subst heq
      omega
    · omega
  · have hsound := h.sound p hp
    have hawaited : ∀ ids, Awaited (s.pool.callBack d r) (s.pending + 1) ids :=
      fun ids => Or.inl s.pending.succ_pos
    cases hphase : p.phase with
    | scan scan =>
      rw [Sound, hphase] at hsound ⊢
      refine ⟨hsound.todo, fun d' hd' => ?_, hsound.load, fun _ => Or.inr (hawaited _)⟩
      have hbest := hsound.best d' hd'
      rw [callBack_load, callBack_type]
      split_ifs <;> omega
    | asleep =>
      rw [Sound, hphase]
      exact hawaited _
    | notified =>
      rw [Sound, hphase]
      trivial

/-- The invariant is about the counters only. -/
theorem Inv.setBlocked (h : s.Inv) {pool : DevicePool n} (hsame : SameLoads s.pool pool) :
    { s with pool := pool }.Inv := by
  refine ⟨fun d => ?_, fun p hp => ?_⟩
  · dsimp only
    rw [hsame.load, hsame.type]
    exact h.load d
  · have hsound := h.sound p hp
    have hawaited : ∀ ids, Awaited s.pool s.pending ids → Awaited pool s.pending ids := by
      rintro ids (hpending | ⟨d, hd, hfull⟩)
      · exact Or.inl hpending
      · exact Or.inr ⟨d, hd, by rw [hsame.load, hsame.type, hfull]⟩
    cases hphase : p.phase with
    | scan scan =>
      rw [Sound, hphase] at hsound ⊢
      refine ⟨hsound.todo, fun d hd => ?_, hsound.load,
        fun hbest => (hsound.full hbest).imp_right (hawaited _)⟩
      rw [hsame.load, hsame.type]
      exact hsound.best d hd
    | asleep =>
      rw [Sound, hphase] at hsound ⊢
      exact hawaited _ hsound
    | notified =>
      rw [Sound, hphase]
      trivial

/-- Who is notified does not scan. -/
theorem notify_phase (hp : s.picker = some p) (hunlocked : s.unlocked = true) :
    (Picker.notify p).phase = .notified := by
  simp only [unlocked, hp] at hunlocked
  rw [Picker.notify]
  cases hphase : p.phase with
  | scan scan =>
    rw [hphase] at hunlocked
    exact absurd hunlocked (by simp [Phase.isScan])
  | asleep => rfl
  | notified => exact hphase

theorem Inv.moves (h : s.Inv) (hmoves : Moves blocks unblocks s t) :
    t.Inv := by
  cases hmoves with
  | begins r ids timedOut =>
    refine ⟨h.load, fun q hq => ?_⟩
    obtain rfl := Option.some.inj hq
    exact found_begin s.pool s.pending ids timedOut
  | looks p scan hp hphase =>
    have hsound := h.sound p hp
    rw [Sound, hphase] at hsound
    exact h.look hsound
  | callsBack d r hload => exact h.callBack hload
  | notifies hunlocked =>
    refine ⟨h.load, fun q hq => ?_⟩
    obtain ⟨p, hp, rfl⟩ := Option.map_eq_some_iff.mp hq
    rw [Sound, notify_phase hp hunlocked]
    trivial
  | sets d blocked => exact h.setBlocked (sameLoads_setBlocked s.pool d blocked)

theorem Start.inv (h : s.Start) : s.Inv :=
  ⟨h.load, fun p hp => absurd (h.picker.symm.trans hp) (Option.some_ne_none p).symm⟩

theorem run_inv (hs : s.Start) (hrun : Relation.ReflTransGen (Step blocks unblocks) s t) : t.Inv :=
  Run.invariant (fun _ _ hstep h => h.moves hstep.moves) hrun hs.inv

/-- In every run no device gets more requests than it takes, and there is always somebody to wake
    the thread that sleeps: a `CallBack` that has not notified yet, or a request of a device of its
    task. -/
theorem sleeper_awaited (hs : s.Start) (hrun : Relation.ReflTransGen (Step true true) s t) :
    (∀ d, 0 ≤ (t.pool.taskLayers d).load ∧
      (t.pool.taskLayers d).load ≤ (t.pool.taskLayers d).type.fullLoad) ∧
    ∀ p, t.picker = some p → p.phase = .asleep →
      0 < t.pending ∨ ∃ d ∈ p.deviceIds, 0 < (t.pool.taskLayers d).load := by
  have h := run_inv hs hrun
  refine ⟨h.load, fun p hp hphase => ?_⟩
  have hsound := h.sound p hp
  rw [Sound, hphase] at hsound
  refine hsound.imp_right fun hfull => ?_
  obtain ⟨d, hd, hfull⟩ := hfull
  exact ⟨d, hd, hfull ▸ (fullLoad_bounds _).1⟩

theorem sleeper_awaited_first_blocked :
    ∃ t p, (fallAsleep 0).foldlM State.exec (firstBlocked 0) = some t ∧ t.picker = some p ∧
      p.phase = .asleep ∧ (0 < t.pending ∨ ∃ d ∈ p.deviceIds, 0 < (t.pool.taskLayers d).load) := by
  refine ⟨_, _, rfl, rfl, rfl, ?_⟩
  have hallowed : ∀ a ∈ fallAsleep 0, ∀ s, Allowed true true s a := by
    intro a ha s
    simp only [fallAsleep, List.mem_cons, List.not_mem_nil, or_false] at ha
    rcases ha with rfl | rfl | rfl | rfl | rfl <;> simp [Allowed]
  exact (sleeper_awaited (start_firstBlocked 0) (run_of_exec hallowed rfl)).2 _ rfl rfl

/-! ### The sleeper has missed nothing -/

theorem callBack_blocked :
    ((pool.callBack d r).taskLayers d').blocked = (pool.taskLayers d').blocked := by
  simp only [DevicePool.callBack, setLayer_apply]
  split_ifs with h
  · rw [h]
  · rfl

theorem pickStep_idle (h : Idle pool d) :
    pool.pickStep (none, 2 ^ 31 - 1) d = (some d, (pool.taskLayers d).load) := by
  have hbound := (fullLoad_bounds (pool.taskLayers d).type).2
  rw [DevicePool.pickStep, if_neg (by simp [h.1]), if_pos ⟨h.2, h.2.trans hbound⟩]

theorem pickStep_not_idle (h : ¬ Idle pool d) :
    pool.pickStep (none, 2 ^ 31 - 1) d = (none, 2 ^ 31 - 1) := by
  rw [DevicePool.pickStep]
  split_ifs with hblocked hroom
  · rfl
  · exact absurd ⟨Bool.eq_false_iff.mpr hblocked, hroom.1⟩ h
  · rfl

theorem foldl_pickStep_some (ids : List (Fin n)) (d : Fin n) (load : ℤ) :
    (ids.foldl pool.pickStep (some d, load)).1 ≠ none := by
  induction ids generalizing d load with
  | nil => exact Option.some_ne_none d
  | cons d' ids ih =>
    rw [List.foldl_cons, DevicePool.pickStep]
    split_ifs
    · exact ih d load
    · exact ih d' _
    · exact ih d load

theorem foldl_pickStep_none (pool : DevicePool n) (ids : List (Fin n)) :
    (ids.foldl pool.pickStep (none, 2 ^ 31 - 1)).1 = none ↔ ∀ d ∈ ids, ¬ Idle pool d := by
  induction ids with
  | nil => simp
  | cons d ids ih =>
    rw [List.foldl_cons, List.forall_mem_cons]
    by_cases hidle : Idle pool d
    · rw [pickStep_idle hidle]
      exact ⟨fun h => absurd h (foldl_pickStep_some ids d _), fun h => absurd hidle h.1⟩
    · rw [pickStep_not_idle hidle, ih]
      exact ⟨fun h => ⟨hidle, h⟩, fun h => h.2⟩

/-- When the picker would wait. -/
theorem pickDeviceIndex_wait (ids : List (Fin n)) :
    pool.pickDeviceIndex ids = .ok none ↔
      (∃ d ∈ ids, (pool.taskLayers d).blocked = false) ∧ ∀ d ∈ ids, ¬ Idle pool d := by
  have hfold := foldl_pickStep_none pool (ids.rotate pool.curDevIdx)
  simp only [List.mem_rotate] at hfold
  rw [DevicePool.pickDeviceIndex]
  split_ifs with hblocked
  · refine ⟨fun h => by simp at h, fun h => ?_⟩
    obtain ⟨d, hd, hopen⟩ := h.1
    exact absurd (hblocked d hd) (by simp [hopen])
  · have hopen : ∃ d ∈ ids, (pool.taskLayers d).blocked = false := by simpa using hblocked
    rw [Except.ok.injEq, hfold]
    exact ⟨fun h => ⟨hopen, h⟩, fun h => h.2⟩

/-- What a scan has seen is still so, unless somebody is about to notify. -/
structure Seen (pool : DevicePool n) (pending : ℕ) (ids : List (Fin n)) (scan : Scan n) :
    Prop where
  head : scan.unblocked = true → ∀ d ∈ scan.todo.head?, (pool.taskLayers d).blocked = false
  idle : scan.best = none → 0 < pending ∨ ∀ d ∈ ids, d ∈ scan.todo ∨ ¬ Idle pool d
  unblocked : scan.best = none → ids.length ≤ scan.blockCount + scan.todo.length ∨ 0 < pending ∨
    ∃ d ∈ ids, (pool.taskLayers d).blocked = false

def Watchful (pool : DevicePool n) (pending : ℕ) (p : Picker n) : Prop :=
  match p.phase with
  | .scan scan => Seen pool pending p.deviceIds scan
  | .asleep => 0 < pending ∨ pool.pickDeviceIndex p.deviceIds = .ok none
  | .notified => True

structure Watch (s : State n) : Prop where
  inv : s.Inv
  watchful : ∀ p, s.picker = some p → Watchful s.pool s.pending p

theorem seen_begin (pool : DevicePool n) (pending : ℕ) (ids : List (Fin n)) (timedOut : Bool) :
    Seen pool pending ids (.begin ids pool.curDevIdx timedOut) where
  head h := absurd h Bool.false_ne_true
  idle _ := Or.inr fun _ hd => Or.inl (List.mem_rotate.mpr hd)
  unblocked _ := Or.inl (by rw [Scan.begin, List.length_rotate, Nat.zero_add])

theorem Watch.decide (h : s.Watch) (hp : s.picker = some p) (hphase : p.phase = .scan scan)
    (htodo : scan.todo = []) : (s.decide p scan).Watch := by
  have hsound := h.inv.sound p hp
  have hseen := h.watchful p hp
  rw [Sound, hphase] at hsound
  rw [Watchful, hphase] at hseen
  refine ⟨h.inv.decide hsound htodo, fun q hq => ?_⟩
  rw [State.decide] at hq ⊢
  rcases Nat.lt_or_ge scan.blockCount p.deviceIds.length with hcount | hcount
  · rw [if_neg (Nat.not_le.mpr hcount)] at hq ⊢
    cases hbest : scan.best with
    | some d =>
      rw [hbest] at hq
      exact absurd hq (Option.some_ne_none q).symm
    | none =>
      rw [hbest] at hq
      dsimp only at hq ⊢
      rcases Bool.eq_false_or_eq_true scan.timedOut with htimed | htimed
      · rw [if_pos htimed] at hq
        exact absurd hq (Option.some_ne_none q).symm
      rw [if_neg (Bool.eq_false_iff.mp htimed)] at hq ⊢
      obtain rfl := Option.some.inj hq
      have hidle := hseen.idle hbest
      have hunblocked := hseen.unblocked hbest
      rw [htodo] at hidle hunblocked
      simp only [Watchful]
      rw [pickDeviceIndex_wait]
      rcases hunblocked with hlength | hpending | hopen
      · exact absurd hlength (Nat.not_le.mpr hcount)
      · exact Or.inl hpending
      · refine hidle.imp_right fun hidle => ⟨hopen, fun d hd => ?_⟩
        exact (hidle d hd).resolve_left (List.not_mem_nil)
  · rw [if_pos hcount] at hq
    exact absurd hq (Option.some_ne_none q).symm

theorem Watch.look (h : s.Watch) (hp : s.picker = some p) (hphase : p.phase = .scan scan) :
    (s.look p scan).Watch := by
  have hsound := h.inv.sound p hp
  have hseen := h.watchful p hp
  rw [Sound, hphase] at hsound
  rw [Watchful, hphase] at hseen
  have hinv := h.inv.look hsound
  rw [State.look] at hinv ⊢
  cases htodo : scan.todo with
  | nil => exact h.decide hp hphase htodo
  | cons d todo =>
    rw [htodo] at hinv
    refine ⟨hinv, fun q hq => ?_⟩
    obtain rfl := Option.some.inj hq
    obtain ⟨hhead, hidle, hunblocked⟩ := hseen
    rw [htodo] at hhead hidle hunblocked
    -- a device that would not be picked need not be looked at any more
    have hpassed : ¬ Idle s.pool d → scan.best = none →
        0 < s.pending ∨ ∀ d' ∈ p.deviceIds, d' ∈ todo ∨ ¬ Idle s.pool d' := by
      intro hd hbest
      refine (hidle hbest).imp_right fun hidle d' hd' => ?_
      rcases hidle d' hd' with hmem | hnot
      · rcases List.mem_cons.mp hmem with rfl | hmem
        · exact Or.inr hd
        · exact Or.inl hmem
      · exact Or.inr hnot
    simp only [Watchful]
    split_ifs with hlooked hbetter hblocked
    · exact ⟨fun h => absurd h Bool.false_ne_true, fun h => absurd h (Option.some_ne_none d),
        fun h => absurd h (Option.some_ne_none d)⟩
    · have hopen := hhead hlooked d rfl
      have hmem : d ∈ p.deviceIds := hsound.todo d (by rw [htodo]; exact List.mem_cons_self)
      refine ⟨fun h => absurd h Bool.false_ne_true, fun hbest => hpassed ?_ hbest,
        fun _ => Or.inr (Or.inr ⟨d, hmem, hopen⟩)⟩
      have hbound := (fullLoad_bounds (s.pool.taskLayers d).type).2
      rw [hsound.load hbest] at hbetter
      exact fun hd => hbetter ⟨hd.2, hd.2.trans hbound⟩
    · refine ⟨fun h => absurd h hlooked, fun hbest => hpassed (fun hd => ?_) hbest,
        fun hbest => ?_⟩
      · exact absurd hblocked (by simp [hd.1])
      · refine (hunblocked hbest).imp_left fun hlength => ?_
        rw [List.length_cons] at hlength
        dsimp only
        omega
    · refine ⟨fun _ d' hd' => ?_, hidle, hunblocked⟩
      obtain rfl := Option.some.inj hd'
      exact Bool.eq_false_iff.mpr hblocked

theorem Watch.callBack (h : s.Watch) (hload : 0 < (s.pool.taskLayers d).load) :
    { s with pool := s.pool.callBack d r, pending := s.pending + 1 }.Watch := by
  refine ⟨h.inv.callBack hload, fun p hp => ?_⟩
  have hwatchful := h.watchful p hp
  cases hphase : p.phase with
  | scan scan =>
    rw [Watchful, hphase] at hwatchful ⊢
    refine ⟨fun hlooked d' hd' => ?_, fun _ => Or.inl s.pending.succ_pos,
      fun _ => Or.inr (Or.inl s.pending.succ_pos)⟩
    rw [callBack_blocked]
    exact hwatchful.head hlooked d' hd'
  | asleep =>
    rw [Watchful, hphase]
    exact Or.inl s.pending.succ_pos
  | notified =>
    rw [Watchful, hphase]
    trivial

theorem Watch.moves (h : s.Watch) (hmoves : Moves false false s t) : t.Watch := by
  have hinv := h.inv.moves hmoves
  cases hmoves with
  | begins r ids timedOut =>
    refine ⟨hinv, fun q hq => ?_⟩
    obtain rfl := Option.some.inj hq
    exact seen_begin s.pool s.pending ids timedOut
  | looks p scan hp hphase => exact h.look hp hphase
  | callsBack d r hload => exact h.callBack hload
  | notifies hunlocked =>
    refine ⟨hinv, fun q hq => ?_⟩
    obtain ⟨p, hp, rfl⟩ := Option.map_eq_some_iff.mp hq
    rw [Watchful, notify_phase hp hunlocked]
    trivial
  | sets d blocked hallowed =>
    refine ⟨hinv, fun p hp => ?_⟩
    have hquiet : s.onWatch = false := hallowed.resolve_left (by cases blocked <;> simp)
    have hp' : s.picker = some p := hp
    simp only [onWatch, hp'] at hquiet
    cases hphase : p.phase with
    | scan scan =>
      rw [hphase] at hquiet
      exact absurd hquiet Bool.false_ne_true.symm
    | asleep =>
      rw [hphase] at hquiet
      exact absurd hquiet Bool.false_ne_true.symm
    | notified =>
      rw [Watchful, hphase]
      trivial

theorem Start.watch (h : s.Start) : s.Watch :=
  ⟨h.inv, fun p hp => absurd (h.picker.symm.trans hp) (Option.some_ne_none p).symm⟩

theorem run_attentive (hs : s.Start) (hrun : Relation.ReflTransGen (Step false false) s t) :
    t.Attentive := by
  have hwatch : t.Watch :=
    Run.invariant (fun _ _ hstep (h : Watch _) => h.moves hstep.moves) hrun hs.watch
  intro p hp hphase hpending
  have hwatchful := hwatch.watchful p hp
  rw [Watchful, hphase] at hwatchful
  exact hwatchful.resolve_left (by omega)

/-! ### What a sleeper can miss -/

/-- Then the first device is unblocked. -/
def unblocking (n : ℕ) : List (Action (n + 2)) := fallAsleep n ++ [.unblock ⟨0, n.succ.succ_pos⟩]

/-- A thread falls asleep over the second device, and that one is blocked. -/
def blocking (n : ℕ) : List (Action (n + 2)) :=
  [.enter 0 [⟨1, Nat.one_lt_succ_succ n⟩], .look, .look, .look, .block ⟨1, Nat.one_lt_succ_succ n⟩]

theorem unblocking_missed (n : ℕ) :
    ∃ t, (unblocking n).foldlM State.exec (firstBlocked n) = some t ∧ ¬ t.Attentive := by
  refine ⟨_, rfl, fun h => ?_⟩
  have hwait := (pickDeviceIndex_wait _).mp (h _ rfl rfl rfl)
  have hroom : 0 < DeviceType.std.fullLoad := by decide
  exact hwait.2 ⟨0, n.succ.succ_pos⟩ List.mem_cons_self ⟨rfl, hroom⟩

theorem blocking_missed (n : ℕ) :
    ∃ t, (blocking n).foldlM State.exec (firstBlocked n) = some t ∧ ¬ t.Attentive := by
  refine ⟨_, rfl, fun h => ?_⟩
  obtain ⟨⟨d, hd, hopen⟩, _⟩ := (pickDeviceIndex_wait _).mp (h _ rfl rfl rfl)
  obtain rfl := List.mem_singleton.mp hd
  have hclosed : true = false := hopen
  exact Bool.false_ne_true.symm hclosed

/-- If no device is blocked and none is unblocked while a thread is on watch, the sleeper never
    misses a device that it would pick, or that all its devices are blocked, in every run. With at
    least two devices it does in some run otherwise. -/
theorem attentive_iff {n : ℕ} (blocks unblocks : Bool) :
    (blocks = false ∧ unblocks = false →
      ∀ s t : State n, s.Start → Relation.ReflTransGen (Step blocks unblocks) s t →
        t.Attentive) ∧
      (2 ≤ n → (∀ s t : State n, s.Start → Relation.ReflTransGen (Step blocks unblocks) s t →
        t.Attentive) → blocks = false ∧ unblocks = false) := by
  constructor
  · rintro ⟨rfl, rfl⟩ s t hs hrun
    exact run_attentive hs hrun
  · intro hn h
    obtain ⟨n, rfl⟩ := Nat.exists_eq_add_of_le' hn
    constructor
    · by_contra hblocks
      obtain rfl : blocks = true := by simpa using hblocks
      obtain ⟨t, hexec, hmissed⟩ := blocking_missed n
      refine hmissed (h _ t (start_firstBlocked n) (run_of_exec ?_ hexec))
      intro a ha s
      simp only [blocking, List.mem_cons, List.not_mem_nil, or_false] at ha
      rcases ha with rfl | rfl | rfl | rfl | rfl <;> simp [Allowed]
    · by_contra hunblocks
      obtain rfl : unblocks = true := by simpa using hunblocks
      obtain ⟨t, hexec, hmissed⟩ := unblocking_missed n
      refine hmissed (h _ t (start_firstBlocked n) (run_of_exec ?_ hexec))
      intro a ha s
      simp only [unblocking, fallAsleep, List.mem_append, List.mem_cons, List.not_mem_nil,
        or_false] at ha
      rcases ha with (rfl | rfl | rfl | rfl | rfl) | rfl <;> simp [Allowed]

end State
end DxRt.DeviceWait
