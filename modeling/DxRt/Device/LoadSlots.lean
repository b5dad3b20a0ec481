import DxRt.Device.Pipeline

/-! The slots of a device: its load counts the requests on their way.

    A request holds a slot from the pick to `CallBack`. A step either leaves the counter and hands
    the slot on, or takes a slot for a request, or gives one back; as long as no request is dropped
    while it holds a slot, the counter is the number of slots held, every pick is matched by one
    `CallBack`, and the counter stays between 0 and the full load. -/

namespace DxRt.Pipeline
open Workers DevicePool

variable {n : ℕ} {cfg : Config} {s s' : DevicePool n} {work new : List (Work n)} {w : Work n}
  {e : Circumstances} {d : Fin n} {r : ℕ}

/-- The device and the request for which an item holds a slot. -/
def Work.slot : Work n → Option (Fin n × ℕ)
  | .picked d r | .nfhInput d r | .inferenceRequest d r | .input d r => some (d, r)
  | .handleInferenceAcc d acc | .running d acc => some (d, acc.reqId)
  | .output d response => some (d, response.reqId)
  | .created _ | .eraseOngoing .. | .nfhOutput .. | .completed _ | .cleared _ => none

def slots (work : List (Work n)) : List (Fin n × ℕ) := work.filterMap Work.slot

/-- Every pick is matched by one `CallBack`, sooner or later. -/
structure Matched (s : DevicePool n) (work : List (Work n)) : Prop where
  bounds : ∀ d, 0 ≤ (s.taskLayers d).load ∧ (s.taskLayers d).load ≤ (s.taskLayers d).type.fullLoad
  matched : ∀ d r, s.log.count (.pick d r) = s.log.count (.callBack d r) + (slots work).count (d, r)
  ended : ∀ d, (∀ r, (d, r) ∉ slots work) → (s.taskLayers d).load = 0

/-- What must not happen while a request holds a slot: an exception that is caught and logged, a
    transfer that fails without a service, an error of the device that is left to the recovery, a
    request that the service or the driver does not take over, an entry of `_ongoingRequests` that is
    gone, and the validation option. -/
def Orderly (cfg : Config) (s : DevicePool n) (w : Work n) (e : Circumstances) : Prop :=
  match w with
  | .picked .. => e.throws = true ∨ e.throwsLate = false
  | .nfhInput .. => e.throws = false
  | .inferenceRequest d _ => e.throws = false ∧
    match (s.taskLayers d).type with
    | .acc => cfg.npuValidateOpt = false ∧ e.throwsLate = false
    | .std => e.sent = true
  | .input d r => e.throws = false ∧ (cfg.runOnService = true ∨ 0 ≤ e.ret) ∧
      (s.taskLayers d).ongoingRequests.find? r = some ⟨r, cfg.pid⟩
  | .handleInferenceAcc .. => e.throws = false ∧ (cfg.runOnService = true → e.sent = true)
  | .running d _ => (s.taskLayers d).type = .acc → cfg.runOnService = false →
      isRecoverable e.status = false
  | .output .. => e.throws = false ∧ (cfg.runOnService = true ∨ e.ret = 0)
  | .created _ | .eraseOngoing .. | .nfhOutput .. | .completed _ | .cleared _ => True

instance (cfg : Config) (s : DevicePool n) : ∀ w e, Decidable (Orderly cfg s w e)
  | .picked .., _ => inferInstanceAs (Decidable (_ = true ∨ _ = false))
  | .nfhInput .., _ => inferInstanceAs (Decidable (_ = false))
  | .inferenceRequest d _, e => by
    rw [Orderly]
    cases (s.taskLayers d).type <;> infer_instance
  | .input .., _ => inferInstanceAs (Decidable (_ ∧ _ ∧ _))
  | .handleInferenceAcc .., _ => inferInstanceAs (Decidable (_ ∧ (_ → _)))
  | .running .., _ => inferInstanceAs (Decidable (_ → _ → _))
  | .output .., _ => inferInstanceAs (Decidable (_ ∧ _))
  | .created _, _ | .eraseOngoing .., _ | .nfhOutput .., _ | .completed _, _ | .cleared _, _ =>
    isTrue trivial

/-! ### What a step does to the counters -/

/-- Counters and log are the same. -/
structure SameLoad (s s' : DevicePool n) : Prop where
  load : ∀ d, (s'.taskLayers d).load = (s.taskLayers d).load
  type : ∀ d, (s'.taskLayers d).type = (s.taskLayers d).type
  log : s'.log = s.log

namespace SameLoad

theorem refl (s : DevicePool n) : SameLoad s s := ⟨fun _ => rfl, fun _ => rfl, rfl⟩

theorem trans {s'' : DevicePool n} (h : SameLoad s s') (h' : SameLoad s' s'') : SameLoad s s'' :=
  ⟨fun d => (h'.load d).trans (h.load d), fun d => (h'.type d).trans (h.type d),
    h'.log.trans h.log⟩

theorem setLayer {layer : TaskLayer} (hload : layer.load = (s.taskLayers d).load)
    (htype : layer.type = (s.taskLayers d).type) : SameLoad s (s.setLayer d layer) := by
  refine ⟨fun d' => ?_, fun d' => ?_, rfl⟩ <;>
    simp only [DevicePool.setLayer, Function.update_apply] <;> split_ifs with hd
  · rw [hd, hload]
  · rfl
  · rw [hd, htype]
  · rfl

theorem setRequest (req : Request n) : SameLoad s (s.setRequest r req) :=
  ⟨fun _ => rfl, fun _ => rfl, rfl⟩

theorem setManager {taskId : ℤ} {manager : TaskNpuMemoryCacheManager} :
    SameLoad s (s.setLayer d ((s.taskLayers d).setManager taskId manager)) := setLayer rfl rfl

theorem peekInference : SameLoad s (s.setLayer d ((s.taskLayers d).peekInference r).1) := by
  rw [TaskLayer.peekInference]
  split <;> exact setLayer rfl rfl

theorem prepareZeroCopyIo (h : s.prepareZeroCopyIo cfg d r = some s') : SameLoad s s' := by
  rcases prepareZeroCopyIo_cases h with rfl | ⟨_, _, _, _, _, ⟨_, rfl⟩ | ⟨_, rfl⟩ | ⟨_, rfl⟩⟩
  · exact refl s'
  · exact setManager
  · exact setManager
  · exact setManager.trans (setRequest _)

theorem cacheSlice {slice : NpuMemoryCacheSlice} (h : s.cacheSlice e d r = some (slice, s')) :
    SameLoad s s' := by
  rcases cacheSlice_cases h with ⟨_, _, rfl⟩ | ⟨_, ⟨_, rfl⟩ | ⟨_, _, _, _, rfl⟩⟩
  · exact setRequest _
  · exact refl s'
  · exact setManager

theorem enter (slice : NpuMemoryCacheSlice) : SameLoad s (s.enter cfg d r slice) := setLayer rfl rfl

theorem validateLoad (h : cfg.npuValidateOpt = false) : SameLoad s (s.validateLoad cfg d) := by
  rw [DevicePool.validateLoad, h]
  exact refl s

theorem releaseBuffers : SameLoad s (s.releaseBuffers r) := by
  simp only [DevicePool.releaseBuffers]
  split_ifs
  · exact refl s
  · refine trans ?_ (setRequest _)
    cases (s.request r).processedDevId with
    | none => exact refl s
    | some d =>
      refine setLayer ?_ ?_ <;> rw [TaskLayer.releaseInferenceCache] <;> split <;>
        first | rfl | (rw [TaskLayer.deallocateNpuBuf]; split <;> rfl)

theorem reset : SameLoad s (s.reset r) := releaseBuffers.trans (setRequest _)

end SameLoad

/-- The counter of one device changes by `delta`, and the change is logged. -/
structure Counts (s s' : DevicePool n) (d : Fin n) (delta : ℤ) (event : LoadEvent n) : Prop where
  load : ∀ d', (s'.taskLayers d').load = (s.taskLayers d').load + if d' = d then delta else 0
  type : ∀ d', (s'.taskLayers d').type = (s.taskLayers d').type
  log : s'.log = event :: s.log

theorem Counts.of_setLayer {layer : TaskLayer} {delta : ℤ} {event : LoadEvent n}
    (hlayers : s'.taskLayers = (s.setLayer d layer).taskLayers)
    (hload : layer.load = (s.taskLayers d).load + delta)
    (htype : layer.type = (s.taskLayers d).type) (hlog : s'.log = event :: s.log) :
    Counts s s' d delta event := by
  refine ⟨fun d' => ?_, fun d' => ?_, hlog⟩ <;>
    simp only [hlayers, DevicePool.setLayer, Function.update_apply] <;> split_ifs with hd
  · rw [hload, hd]
  · rw [add_zero]
  · rw [htype, hd]
  · rfl

theorem Counts.trans {s'' : DevicePool n} {delta : ℤ} {event : LoadEvent n}
    (h : SameLoad s s') (h' : Counts s' s'' d delta event) : Counts s s'' d delta event :=
  ⟨fun d' => (h'.load d').trans (by rw [h.load d']), fun d' => (h'.type d').trans (h.type d'),
    h'.log.trans (by rw [h.log])⟩

theorem counts_callBack : Counts s (s.callBack d r) d (-1) (.callBack d r) :=
  Counts.of_setLayer rfl rfl rfl rfl

theorem counts_pick : Counts s (s.pick d r) d 1 (.pick d r) := Counts.of_setLayer rfl rfl rfl rfl

/-- What a step does with the slot of its item: it hands the slot on, takes one or gives it back. -/
inductive Effect (s : DevicePool n) (w : Work n) (s' : DevicePool n) (new : List (Work n)) : Prop
  | keeps (h : SameLoad s s') (hslots : slots new = w.slot.toList)
  | picks (d : Fin n) (r : ℕ) (h : Counts s s' d 1 (.pick d r)) (hw : w.slot = none)
      (hslots : slots new = [(d, r)]) (hroom : (s.taskLayers d).load < (s.taskLayers d).type.fullLoad)
  | returns (d : Fin n) (r : ℕ) (h : Counts s s' d (-1) (.callBack d r)) (hw : w.slot = some (d, r))
      (hslots : slots new = [])

/-- What is with the driver and what comes back carries the id of this process. -/
def Work.Stamped (cfg : Config) : Work n → Prop
  | .handleInferenceAcc _ acc | .running _ acc => acc.procId = cfg.pid
  | .output _ response => response.procId = cfg.pid
  | _ => True

/-- A device that is picked has room. -/
theorem pickDeviceIndex_room {deviceIds : List (Fin n)}
    (h : s.pickDeviceIndex deviceIds = .ok (some d)) :
    (s.taskLayers d).load < (s.taskLayers d).type.fullLoad := by
  rw [pickDeviceIndex] at h
  split_ifs at h
  have hfold : ∀ (ids : List (Fin n)) (best : Option (Fin n) × ℤ),
      (∀ d, best.1 = some d → (s.taskLayers d).load < (s.taskLayers d).type.fullLoad) →
      ∀ d, (ids.foldl s.pickStep best).1 = some d →
        (s.taskLayers d).load < (s.taskLayers d).type.fullLoad := by
    intro ids
    induction ids with
    | nil => exact fun best hbest => hbest
    | cons id ids ih =>
      intro best hbest
      refine ih _ fun d hd => ?_
      rw [pickStep] at hd
      split_ifs at hd with hblocked hless
      · exact hbest d hd
      · obtain rfl := Option.some.inj hd
        exact hless.1
      · exact hbest d hd
  exact hfold _ (none, _) (fun _ hnone => by cases hnone) d (Except.ok.inj h)

theorem effect_created (h : s.pickOneDevice e r = (s', new)) : Effect s (.created r) s' new := by
  rw [pickOneDevice] at h
  split at h
  · obtain ⟨rfl, rfl⟩ := Prod.mk.inj h
    exact .keeps (.refl s) rfl
  · split_ifs at h <;> obtain ⟨rfl, rfl⟩ := Prod.mk.inj h <;> exact .keeps (.refl s) rfl
  · rename_i d hpick
    obtain ⟨rfl, rfl⟩ := Prod.mk.inj h
    exact .picks d r counts_pick rfl rfl (pickDeviceIndex_room hpick)

theorem effect_picked (hok : Orderly cfg s (.picked d r) e) (h : s.prepare cfg e d r = (s', new)) :
    Effect s (.picked d r) s' new := by
  rw [prepare] at h
  by_cases hthrows : e.throws = true
  · rw [if_pos hthrows] at h
    obtain ⟨rfl, rfl⟩ := Prod.mk.inj h
    exact .returns d r counts_callBack rfl rfl
  · have hlate : e.throwsLate = false := hok.resolve_left hthrows
    simp only [if_neg hthrows, hlate, Bool.false_eq_true, if_false] at h
    cases hprepare : s.prepareZeroCopyIo cfg d r with
    | none =>
      rw [hprepare] at h
      obtain ⟨rfl, rfl⟩ := Prod.mk.inj h
      exact .keeps (.refl s) rfl
    | some s₁ =>
      rw [hprepare] at h
      obtain ⟨rfl, rfl⟩ := Prod.mk.inj h
      exact .keeps (.prepareZeroCopyIo hprepare) rfl

theorem effect_inferenceRequest (hok : Orderly cfg s (.inferenceRequest d r) e)
    (h : s.inferenceRequest cfg e d r = some (s', new)) :
    Effect s (.inferenceRequest d r) s' new ∧ ∀ w ∈ new, w.Stamped cfg := by
  obtain ⟨hthrows, hkind⟩ := hok
  rw [DevicePool.inferenceRequest, if_neg (by simp [hthrows])] at h
  cases htype : (s.taskLayers d).type with
  | std =>
    simp only [htype] at h hkind
    rw [if_pos hkind] at h
    obtain ⟨rfl, rfl⟩ := Prod.mk.inj (Option.some.inj h)
    exact ⟨.keeps (.refl s) rfl, by simp [Work.Stamped]⟩
  | acc =>
    simp only [htype] at h hkind
    obtain ⟨hvalidate, hlate⟩ := hkind
    simp only [inferenceRequestACC, hlate, Bool.false_eq_true, if_false] at h
    split_ifs at h
    cases hslice : s.cacheSlice e d r with
    | none =>
      rw [hslice] at h
      obtain ⟨rfl, rfl⟩ := Prod.mk.inj (Option.some.inj h)
      exact ⟨.keeps (.refl s) rfl, by simp [Work.Stamped]⟩
    | some p =>
      obtain ⟨slice, s₁⟩ := p
      rw [hslice] at h
      simp only at h
      split_ifs at h
      · obtain ⟨rfl, rfl⟩ := Prod.mk.inj (Option.some.inj h)
        refine ⟨.keeps ?_ rfl, by simp [Work.Stamped]⟩
        exact ((SameLoad.cacheSlice hslice).trans (.validateLoad hvalidate)).trans (.enter slice)

theorem effect_input (hok : Orderly cfg s (.input d r) e)
    (h : s.inputHandler cfg e d r = some (s', new)) :
    Effect s (.input d r) s' new ∧ ∀ w ∈ new, w.Stamped cfg := by
  obtain ⟨hthrows, hret, hentry⟩ := hok
  have hpeek : (s.taskLayers d).peekInference r = (s.taskLayers d, ⟨r, cfg.pid⟩) := by
    rw [TaskLayer.peekInference, hentry]
  simp only [inputHandler, hpeek] at h
  rw [if_neg (by simp [hthrows])] at h
  split_ifs at h with _ hneg hservice
  · -- a write can only fail with a service, and then ends the process
    rcases hret with hrun | hnonneg
    · exact absurd hrun hservice
    · omega
  · obtain ⟨rfl, rfl⟩ := Prod.mk.inj (Option.some.inj h)
    exact ⟨.keeps (.setLayer rfl rfl) rfl, by simp [Work.Stamped]⟩

theorem effect_handleInferenceAcc {acc : RequestAcc}
    (hok : Orderly cfg s (.handleInferenceAcc d acc) e) (hstamp : acc.procId = cfg.pid)
    (h : s.handleInferenceAcc cfg e d acc = (s', new)) :
    Effect s (.handleInferenceAcc d acc) s' new ∧ ∀ w ∈ new, w.Stamped cfg := by
  obtain ⟨hthrows, hsent⟩ := hok
  rw [DevicePool.handleInferenceAcc, if_neg (by simp [hthrows])] at h
  split_ifs at h with hsent' hservice
  · obtain ⟨rfl, rfl⟩ := Prod.mk.inj h
    exact ⟨.keeps (.refl s) rfl, by simpa [Work.Stamped] using hstamp⟩
  · exact absurd (hsent hservice) hsent'
  · obtain ⟨rfl, rfl⟩ := Prod.mk.inj h
    exact ⟨.keeps (.refl s) rfl, by simpa [Work.Stamped] using hstamp⟩

theorem effect_running {acc : RequestAcc} (hok : Orderly cfg s (.running d acc) e)
    (hstamp : acc.procId = cfg.pid) (h : s.receive cfg e d acc = some (s', new)) :
    Effect s (.running d acc) s' new ∧ ∀ w ∈ new, w.Stamped cfg := by
  rw [receive] at h
  cases htype : (s.taskLayers d).type with
  | std =>
    simp only [htype] at h
    split_ifs at h <;> obtain ⟨rfl, rfl⟩ := Prod.mk.inj (Option.some.inj h)
    · exact ⟨.keeps (.refl s) rfl, by simpa [Work.Stamped] using hstamp⟩
    · exact ⟨.returns d acc.reqId counts_callBack rfl rfl, by simp [Work.Stamped]⟩
  | acc =>
    simp only [htype] at h
    split_ifs at h with hanswer hrecover
    · obtain ⟨rfl, rfl⟩ := Prod.mk.inj (Option.some.inj h)
      exact ⟨.keeps (.refl s) rfl, by simpa [Work.Stamped] using hstamp⟩
    · have hlibrary : cfg.runOnService = false := by
        simpa using fun hrun => hanswer (Or.inl hrun)
      rw [hok htype hlibrary] at hrecover
      cases hrecover

theorem effect_output {response : Response} (hpid : cfg.pid ≠ 0)
    (hok : Orderly cfg s (.output d response) e) (hstamp : response.procId = cfg.pid)
    (h : s.outputHandler cfg e d response = some (s', new)) :
    Effect s (.output d response) s' new := by
  obtain ⟨hthrows, hret⟩ := hok
  rw [outputHandler, if_neg (by simp [hstamp, hpid])] at h
  simp only at h
  rw [if_neg (by simp [hthrows])] at h
  have hsame : SameLoad s ((s.setLayer d ((s.taskLayers d).peekInference response.reqId).1).setRequest
      response.reqId { s.request response.reqId with processedDevId := some d }) :=
    SameLoad.peekInference.trans (.setRequest _)
  split_ifs at h with _ hfail hservice
  · rcases hret with hrun | hzero
    · exact absurd hrun hservice
    · exact absurd hzero hfail
  · obtain ⟨rfl, rfl⟩ := Prod.mk.inj (Option.some.inj h)
    exact .returns d response.reqId (Counts.trans hsame counts_callBack) rfl rfl
  · obtain ⟨rfl, rfl⟩ := Prod.mk.inj (Option.some.inj h)
    exact .returns d response.reqId (Counts.trans hsame counts_callBack) rfl rfl

theorem exec_effect (hpid : cfg.pid ≠ 0) (hok : Orderly cfg s w e) (hstamp : w.Stamped cfg)
    (h : s.exec cfg e w = some (s', new)) : Effect s w s' new ∧ ∀ w' ∈ new, w'.Stamped cfg := by
  cases w with
  | created r =>
    refine ⟨effect_created (Option.some.inj h), ?_⟩
    simp only [exec, Option.some.injEq] at h
    rw [pickOneDevice] at h
    split at h
    · obtain ⟨rfl, rfl⟩ := Prod.mk.inj h
      simp
    · split_ifs at h <;> obtain ⟨rfl, rfl⟩ := Prod.mk.inj h <;> simp [Work.Stamped]
    · obtain ⟨rfl, rfl⟩ := Prod.mk.inj h
      simp [Work.Stamped]
  | picked d r =>
    refine ⟨effect_picked hok (Option.some.inj h), ?_⟩
    simp only [exec, Option.some.injEq, prepare] at h
    split_ifs at h
    · obtain ⟨rfl, rfl⟩ := Prod.mk.inj h
      simp
    · split at h <;> obtain ⟨rfl, rfl⟩ := Prod.mk.inj h <;> simp [Work.Stamped]
    · split at h <;> obtain ⟨rfl, rfl⟩ := Prod.mk.inj h <;> simp [Work.Stamped]
  | nfhInput d r =>
    have hthrows : e.throws = false := hok
    simp only [exec, DevicePool.handleInput, hthrows, Bool.false_eq_true, if_false] at h
    obtain ⟨rfl, rfl⟩ := Prod.mk.inj (Option.some.inj h)
    exact ⟨.keeps (.refl s) rfl, by simp [Work.Stamped]⟩
  | inferenceRequest d r => exact effect_inferenceRequest hok h
  | input d r => exact effect_input hok h
  | handleInferenceAcc d acc => exact effect_handleInferenceAcc hok hstamp (Option.some.inj h)
  | running d acc => exact effect_running hok hstamp h
  | output d response =>
    refine ⟨effect_output hpid hok hstamp h, ?_⟩
    simp only [exec, outputHandler] at h
    split_ifs at h <;> obtain ⟨rfl, rfl⟩ := Prod.mk.inj (Option.some.inj h) <;>
      simp [Work.Stamped]
  | eraseOngoing d r =>
    obtain ⟨rfl, rfl⟩ := Prod.mk.inj (Option.some.inj h)
    exact ⟨.keeps (.setLayer rfl rfl) rfl, by simp⟩
  | nfhOutput d r =>
    simp only [exec, DevicePool.handleOutput] at h
    split_ifs at h <;> obtain ⟨rfl, rfl⟩ := Prod.mk.inj (Option.some.inj h) <;>
      exact ⟨.keeps (.refl s) rfl, by simp [Work.Stamped]⟩
  | completed r =>
    obtain ⟨rfl, rfl⟩ := Prod.mk.inj (Option.some.inj h)
    exact ⟨.keeps .reset rfl, by simp [Work.Stamped]⟩
  | cleared r =>
    obtain ⟨rfl, rfl⟩ := Prod.mk.inj (Option.some.inj h)
    exact ⟨.keeps (.setRequest _) rfl, by simp⟩

/-! ### Runs -/

/-- The counter of a device is the number of slots held on it. -/
structure SlotInv (cfg : Config) (s : DevicePool n) (work : List (Work n)) : Prop where
  counted : ∀ d, (s.taskLayers d).load = (slots work).countP (fun x => x.1 = d)
  full : ∀ d, (s.taskLayers d).load ≤ (s.taskLayers d).type.fullLoad
  logged : ∀ d r, s.log.count (.pick d r) = s.log.count (.callBack d r) + (slots work).count (d, r)
  stamped : ∀ w ∈ work, w.Stamped cfg

theorem slots_append (l l' : List (Work n)) : slots (l ++ l') = slots l ++ slots l' :=
  List.filterMap_append

theorem slots_cons (w : Work n) (l : List (Work n)) : slots (w :: l) = w.slot.toList ++ slots l := by
  cases h : w.slot <;> simp [slots, h]

theorem SlotInv.matched (h : SlotInv cfg s work) : Matched s work where
  bounds d := ⟨by rw [h.counted d]; exact Int.natCast_nonneg _, h.full d⟩
  matched := h.logged
  ended d hnone := by
    rw [h.counted d, List.countP_eq_zero.mpr]
    · rfl
    · rintro ⟨d', r⟩ hmem
      simp only [decide_eq_true_eq]
      rintro rfl
      exact hnone r hmem

theorem SlotInv.perm {work' : List (Work n)} (hp : work.Perm work') (h : SlotInv cfg s work) :
    SlotInv cfg s work' := by
  have hslots : (slots work).Perm (slots work') := hp.filterMap _
  exact ⟨fun d => by rw [h.counted d, hslots.countP_eq], h.full,
    fun d r => by rw [h.logged d r, hslots.count_eq], fun w hw => h.stamped w (hp.mem_iff.mpr hw)⟩

theorem SlotInv.step {rest : List (Work n)} (h : SlotInv cfg s (w :: rest)) (heff : Effect s w s' new)
    (hstamp : ∀ w' ∈ new, w'.Stamped cfg) : SlotInv cfg s' (new ++ rest) := by
  have hstamped : ∀ w' ∈ new ++ rest, w'.Stamped cfg := by
    intro w' hw'
    rcases List.mem_append.mp hw' with hw' | hw'
    · exact hstamp w' hw'
    · exact h.stamped w' (List.mem_cons_of_mem _ hw')
  cases heff with
  | keeps hsame hslots =>
    have hall : slots (new ++ rest) = slots (w :: rest) := by
      rw [slots_append, slots_cons, hslots]
    refine ⟨fun d => ?_, fun d => ?_, fun d r => ?_, hstamped⟩
    · rw [hsame.load, hall, h.counted d]
    · rw [hsame.load, hsame.type]
      exact h.full d
    · rw [hsame.log, hall]
      exact h.logged d r
  | picks d r hcounts hw hslots hroom =>
    have hbefore : slots (w :: rest) = slots rest := by rw [slots_cons, hw]; rfl
    have hall : slots (new ++ rest) = (d, r) :: slots rest := by rw [slots_append, hslots]; rfl
    refine ⟨fun d' => ?_, fun d' => ?_, fun d' r' => ?_, hstamped⟩
    · rw [hcounts.load, hall, h.counted d', hbefore, List.countP_cons]
      by_cases hd : d' = d
      · simp [hd]
      · simp [hd, Ne.symm hd]
    · rw [hcounts.load, hcounts.type]
      by_cases hd : d' = d
      · rw [if_pos hd, hd]
        omega
      · rw [if_neg hd, add_zero]
        exact h.full d'
    · have hlogged := h.logged d' r'
      rw [hbefore] at hlogged
      rw [hcounts.log, hall, List.count_cons, List.count_cons, List.count_cons, hlogged]
      by_cases heq : d = d' ∧ r = r'
      · obtain ⟨rfl, rfl⟩ := heq
        simp
        omega
      · simp [heq]
  | returns d r hcounts hw hslots =>
    have hbefore : slots (w :: rest) = (d, r) :: slots rest := by rw [slots_cons, hw]; rfl
    have hall : slots (new ++ rest) = slots rest := by rw [slots_append, hslots]; rfl
    refine ⟨fun d' => ?_, fun d' => ?_, fun d' r' => ?_, hstamped⟩
    · rw [hcounts.load, hall, h.counted d', hbefore, List.countP_cons]
      by_cases hd : d' = d
      · simp [hd]
      · simp [hd, Ne.symm hd]
    · rw [hcounts.load, hcounts.type]
      have hfull := h.full d'
      split_ifs <;> omega
    · have hlogged := h.logged d' r'
      rw [hbefore, List.count_cons] at hlogged
      rw [hcounts.log, hall, List.count_cons, List.count_cons, hlogged]
      by_cases heq : d = d' ∧ r = r'
      · obtain ⟨rfl, rfl⟩ := heq
        simp
        omega
      · simp [heq]

theorem SlotInv.arrive {a : Arrival n} (h : SlotInv cfg s work) (harr : s.arrive a = some (s', new)) :
    SlotInv cfg s' (new ++ work) := by
  cases a with
  | create r task =>
    simp only [DevicePool.arrive] at harr
    split_ifs at harr
    obtain ⟨rfl, rfl⟩ := Prod.mk.inj (Option.some.inj harr)
    exact ⟨h.counted, h.full, h.logged, by simpa [Work.Stamped] using h.stamped⟩
  | unblock d =>
    obtain ⟨rfl, rfl⟩ := Prod.mk.inj (Option.some.inj harr)
    have hsame : SameLoad s (s.setLayer d { s.taskLayers d with blocked := false }) :=
      .setLayer rfl rfl
    refine ⟨fun d' => ?_, fun d' => ?_, h.logged, h.stamped⟩
    · rw [hsame.load]
      exact h.counted d'
    · rw [hsame.load, hsame.type]
      exact h.full d'

theorem slotInv_init (type : Fin n → DeviceType) (tasks : Fin n → AccDeviceTaskLayer) :
    SlotInv cfg (DevicePool.init type tasks) [] := by
  refine ⟨fun d => rfl, fun d => ?_, fun d r => rfl, fun w hw => nomatch hw⟩
  change 0 ≤ (type d).fullLoad
  cases type d <;> decide

/-- In every run in which no request is dropped while it holds a slot, and the validation option is
    off, every pick is matched by one `CallBack`. -/
theorem load_slots_matched (hpid : cfg.pid ≠ 0) (type : Fin n → DeviceType)
    (tasks : Fin n → AccDeviceTaskLayer) {c : Workers.Config (DevicePool n) (Work n)}
    (hrun : Relation.ReflTransGen (Step (system n cfg) (Orderly cfg) fun _ _ => True)
      ⟨DevicePool.init type tasks, []⟩ c) : Matched c.shared c.work := by
  suffices h : SlotInv cfg c.shared c.work from h.matched
  refine Workers.invariant (fun s l l' hp h => h.perm hp) ?_ ?_ hrun (slotInv_init type tasks)
  · intro s w rest e s' new h hok hexec
    obtain ⟨heff, hstamp⟩ := exec_effect hpid hok (h.stamped w (List.mem_cons_self ..)) hexec
    exact h.step heff hstamp
  · intro s work a s' new h _ harr
    exact h.arrive harr

/-! ### One device -/

/-- A device on which the task 7 is registered, with two slices of 128 bytes. -/
def oneTask : AccDeviceTaskLayer where
  modelMemoryInfos := .empty
  taskNpuMemoryCaches := (SortedMap.empty).insert 7 (.make 128 2 ⟨1, 256, 2 ^ 30, 0, 0, 5⟩)
  ppuBinaryOffsets := .empty
  taskStaticConfigs := (SortedMap.empty).insert 7 ⟨8192, 4096, 0⟩

/-- Nothing goes wrong. -/
def calm : Circumstances := ⟨false, false, 0, true, 0, ⟨.zero, 0, 0⟩⟩

/-- A request for the task 7 on the only device. -/
def ask (r : ℕ) : Choice Circumstances (Arrival 1) := .arrive (.create r ⟨7, [0], true⟩)

/-- In library mode a request goes all the way, from the pick to the reset. -/
theorem load_slots_matched_one_request : ∃ c : Workers.Config (DevicePool 1) (Work 1),
    Relation.ReflTransGen (Step (system 1 ⟨false, false, 42⟩) (Orderly ⟨false, false, 42⟩)
      fun _ _ => True) ⟨DevicePool.init (fun _ => .acc) fun _ => oneTask, []⟩ c ∧
    c.shared.log = [.callBack 0 3, .pick 0 3] ∧ c.work = [] ∧ Matched c.shared c.work := by
  have hplay : ∃ c, play (system 1 ⟨false, false, 42⟩) (Orderly ⟨false, false, 42⟩)
      (fun _ _ => True) ⟨DevicePool.init (fun _ => .acc) fun _ => oneTask, []⟩
      (ask 3 :: List.replicate 12 (.work 0 calm)) = some c ∧
      c.shared.log = [.callBack 0 3, .pick 0 3] ∧ c.work = [] := by
    refine ⟨_, rfl, by decide +kernel, by decide +kernel⟩
  obtain ⟨c, hc, hlog, hwork⟩ := hplay
  exact ⟨c, play_run hc, hlog, hwork, load_slots_matched (by decide) _ _ (play_run hc)⟩

/-- The encoder throws: the exception is logged, and the device stays counted up. -/
theorem load_slots_encoder_throws : ∃ c : Workers.Config (DevicePool 1) (Work 1),
    Relation.ReflTransGen (Step (system 1 ⟨false, false, 42⟩) (fun _ _ _ => True)
      fun _ _ => True) ⟨DevicePool.init (fun _ => .acc) fun _ => oneTask, []⟩ c ∧
    c.shared.log = [.pick 0 3] ∧ c.work = [] ∧ ¬ Matched c.shared c.work := by
  have hplay : ∃ c, play (system 1 ⟨false, false, 42⟩) (fun _ _ _ => True)
      (fun _ _ => True) ⟨DevicePool.init (fun _ => .acc) fun _ => oneTask, []⟩
      [ask 3, .work 0 calm, .work 0 calm, .work 0 { calm with throws := true }] = some c ∧
      c.shared.log = [.pick 0 3] ∧ c.work = [] := by
    refine ⟨_, rfl, by decide +kernel, by decide +kernel⟩
  obtain ⟨c, hc, hlog, hwork⟩ := hplay
  refine ⟨c, play_run hc, hlog, hwork, fun h => ?_⟩
  have hmatched := h.matched 0 3
  rw [hlog, hwork] at hmatched
  revert hmatched
  decide

end DxRt.Pipeline
