import DxRt.Format.Inputs
import DxRt.Lib.Workers

/-! lib/device_pool/nfh_layer.cpp: the layer that converts formats on the way to a device and back.

    `InferenceRequest` hands a request to an input worker, or handles it at once; handling it means
    to encode the inputs and to submit the request to the device. The answer of the device goes to an
    output worker, which decodes it and calls the response callback. What goes wrong on the way is
    logged and forgotten: the codes of the encoders and of `EncodeInputs`, a device that refuses, an
    exception, a failed decoding. An exception that is not a `std::exception` is not even caught, and
    ends the worker. `serial` counts the requests handed over; the log has no counterpart in the
    code. -/

namespace DxRt.NFHLayer
open Workers NpuFormatHandler

def COMMON_NFH_LAYER_DEVICE_ID : ℤ := -1

/-- A layer, the validation option, and `_taskLayers` of the device pool, `false` for no pointer. -/
structure Config where
  deviceId : ℤ
  isDynamic : Bool
  npuValidateOpt : Bool
  taskLayers : List Bool

structure Request where
  deviceId : ℤ
  data : RequestData
  deriving DecidableEq

/-- A request in one of the two queues, or with the device. -/
inductive Work where
  | input (serial : ℕ) (req : Request)
  | device (serial : ℕ) (req : Request)
  | output (serial : ℕ) (req : Request)
  deriving DecidableEq

def Work.serial : Work → ℕ
  | .input serial _ | .device serial _ | .output serial _ => serial

inductive Event where
  /-- An encoder returned -1 for one of the inputs. -/
  | rejected (serial : ℕ)
  /-- `InferenceRequest` of the device was called. -/
  | submitted (serial : ℕ)
  /-- `InferenceRequest` of the layer returned an error or threw. -/
  | surfaced (serial : ℕ)
  /-- The response callback was called. -/
  | callback (serial : ℕ)
  /-- The process ended, or what it does is undefined. -/
  | ended
  deriving DecidableEq

/-- The workers that are left, and what has happened. -/
structure State where
  memory : ProcessMemory
  inputWorkers : ℕ
  outputWorkers : ℕ
  handed : ℕ
  log : List Event

/-- A `std::exception`, or another one such as `dxrt::Exception`. -/
inductive Throw where
  | std | other
  deriving DecidableEq

inductive DeviceOutcome where
  | accepts | refuses
  | throws (t : Throw)
  deriving DecidableEq

inductive DecodeOutcome where
  | decoded | fails
  | throws (t : Throw)
  deriving DecidableEq

/-- What the environment decides at one step: memory for temporary buffers, an exception while the
    inputs are encoded, what the device does with the request, whether it answers, how the outputs
    are decoded, and an exception of the response callback. -/
structure Circumstances where
  alloc : ℕ → Allocs
  throwsAt : Option ℕ
  device : DeviceOutcome
  answers : Bool
  decode : DecodeOutcome
  callbackThrows : Option Throw

/-- What a handler returns, `none` for an exception, and whether the device has the request now. -/
structure Handled where
  state : State
  result : Option ℤ
  accepted : Bool

namespace State

def note (s : State) (event : Event) : State := { s with log := event :: s.log }

/-- `InferenceRequest` of the device, with the `catch` around it. -/
def submit (s : State) (serial : ℕ) (e : Circumstances) : Handled :=
  match e.device with
  | .accepts => ⟨s.note (.submitted serial), some 0, true⟩
  | .refuses | .throws .std => ⟨s.note (.submitted serial), some 0, false⟩
  | .throws .other => ⟨s.note (.submitted serial), none, false⟩

/-- `GetDeviceTaskLayer` of the common layer, and the submission. -/
def submitCommon (cfg : Config) (s : State) (serial : ℕ) (req : Request) (e : Circumstances) :
    Handled :=
  if req.deviceId < 0 then ⟨s.note .ended, some 0, false⟩
  else match cfg.taskLayers[req.deviceId.toNat]? with
    | none => ⟨s, none, false⟩
    | some false => ⟨s, some (-1), false⟩
    | some true => s.submit serial e

/-- The state after `EncodeInputs`, with its outcome. -/
def encode (cfg : Config) (s : State) (serial : ℕ) (req : Request) (e : Circumstances) :
    State × EncodeOutcome :=
  let (encoded, outcome) :=
    encodeInputs cfg.npuValidateOpt e.alloc e.throwsAt s.memory req.data
  let s := { s with memory := encoded.memory }
  (if -1 ∈ encoded.codes then s.note (.rejected serial) else s, outcome)

/-- The code of `EncodeInputs` is only logged. -/
def handleInput (cfg : Config) (s : State) (serial : ℕ) (req : Request) (e : Circumstances) :
    Handled :=
  match s.encode cfg serial req e with
  | (s, .ended) => ⟨s.note .ended, some 0, false⟩
  | (s, .threw) => ⟨s, some 0, false⟩
  | (s, .returned _) =>
    if cfg.deviceId = COMMON_NFH_LAYER_DEVICE_ID then s.submitCommon cfg serial req e
    else s.submit serial e

/-- Whether an exception leaves the handler comes second. -/
def handleOutput (s : State) (serial : ℕ) (e : Circumstances) : State × Bool :=
  match e.decode with
  | .fails | .throws .std => (s, false)
  | .throws .other => (s, true)
  | .decoded => (s.note (.callback serial), e.callbackThrows = some .other)

/-- The device that has the request answers. -/
def processResponse (cfg : Config) (s : State) (serial : ℕ) (req : Request) (deviceId : ℤ)
    (e : Circumstances) : State × List Work :=
  if cfg.deviceId ≠ COMMON_NFH_LAYER_DEVICE_ID ∧ deviceId ≠ cfg.deviceId then (s, [])
  else if cfg.isDynamic then (s, [.output serial req])
  else ((s.handleOutput serial e).1, [])

/-- `InferenceRequest` of the layer. -/
def inferenceRequest (cfg : Config) (s : State) (req : Request) (e : Circumstances) :
    State × List Work :=
  let serial := s.handed
  let s := { s with handed := s.handed + 1 }
  if cfg.deviceId ≠ COMMON_NFH_LAYER_DEVICE_ID ∧ req.deviceId ≠ cfg.deviceId then
    (s.note (.surfaced serial), [])
  else if cfg.isDynamic then (s, [.input serial req])
  else
    let h := s.handleInput cfg serial req e
    (if h.result = some 0 then h.state else h.state.note (.surfaced serial),
      if h.accepted then [.device serial req] else [])

end State

/-- The id that the device answers with. -/
def answeringDevice (cfg : Config) (req : Request) : ℤ :=
  if cfg.deviceId = COMMON_NFH_LAYER_DEVICE_ID then req.deviceId else cfg.deviceId

/-- The workers take up what is in the queues, and the device answers. -/
def system (cfg : Config) : System State Work Circumstances (Request × Circumstances) where
  exec s w e :=
    match w with
    | .input serial req =>
      if s.inputWorkers = 0 then none
      else
        let h := s.handleInput cfg serial req e
        some (if h.result = none then { h.state with inputWorkers := h.state.inputWorkers - 1 }
            else h.state,
          if h.accepted then [.device serial req] else [])
    | .device serial req =>
      if e.answers then some (s.processResponse cfg serial req (answeringDevice cfg req) e)
      else some (s, [])
    | .output serial _ =>
      if s.outputWorkers = 0 then none
      else
        let (s, escapes) := s.handleOutput serial e
        some (if escapes then { s with outputWorkers := s.outputWorkers - 1 } else s, [])
  arrive s a := some (s.inferenceRequest cfg a.1 a.2)

/-- A new layer with its workers. -/
def init (memory : ProcessMemory) (inputWorkers outputWorkers : ℕ) : State :=
  ⟨memory, inputWorkers, outputWorkers, 0, []⟩

/-! ### What is owed to a request -/

/-- How often the end of a request has been reported. -/
def reports (log : List Event) (serial : ℕ) : ℕ :=
  log.count (.callback serial) + log.count (.surfaced serial)

/-- Each request handed over is reported once, or is in one place from which it can go on; one that
    an encoder has rejected is not submitted; and the process goes on. -/
structure Served (cfg : Config) (s : State) (work : List Work) : Prop where
  once : ∀ serial < s.handed, reports s.log serial + (work.map Work.serial).count serial = 1
  goesOn : ∀ w ∈ work, ∀ e, ((system cfg).exec s w e).isSome
  notRun : ∀ serial, .rejected serial ∈ s.log → .submitted serial ∉ s.log
  running : .ended ∉ s.log

/-- The inputs are encoded: every encoder that is called accepts its input, and nothing throws. -/
structure Encodes (cfg : Config) (req : Request) (e : Circumstances) : Prop where
  encodable : req.data.Encodable cfg.npuValidateOpt e.alloc
  quiet : e.throwsAt = none

/-- There is a device to submit the request to. -/
def Found (cfg : Config) (req : Request) : Prop :=
  cfg.deviceId = COMMON_NFH_LAYER_DEVICE_ID →
    0 ≤ req.deviceId ∧ cfg.taskLayers[req.deviceId.toNat]? = some true

/-- A step without a failure that would be forgotten: the inputs are encoded and the device accepts
    the request; it answers, the outputs are decoded, and the response callback does not end the last
    output worker. -/
def Smooth (cfg : Config) (s : State) (w : Work) (e : Circumstances) : Prop :=
  match w with
  | .input _ req => Encodes cfg req e ∧ Found cfg req ∧ e.device = .accepts
  | .device _ _ => e.answers = true ∧ (cfg.isDynamic = false → e.decode = .decoded)
  | .output _ _ => e.decode = .decoded ∧ (e.callbackThrows = some .other → 1 < s.outputWorkers)

/-- A layer without workers also tells its caller that there is no device, and lets exceptions pass
    that are not `std::exception`s. -/
def SmoothArrival (cfg : Config) (_ : State) (a : Request × Circumstances) : Prop :=
  cfg.isDynamic = true ∨
    (cfg.deviceId ≠ COMMON_NFH_LAYER_DEVICE_ID ∧ a.1.deviceId ≠ cfg.deviceId) ∨
    Encodes cfg a.1 a.2 ∧
      (Found cfg a.1 → a.2.device = .accepts ∨ a.2.device = .throws .other) ∧
      (cfg.deviceId = COMMON_NFH_LAYER_DEVICE_ID → 0 ≤ a.1.deviceId)

/-! ### What the handlers do -/

theorem encode_encodes {cfg : Config} {req : Request} {e : Circumstances} (h : Encodes cfg req e)
    (s : State) (serial : ℕ) :
    ∃ memory ret, s.encode cfg serial req e = ({ s with memory }, .returned ret) := by
  obtain ⟨hended, hcodes⟩ := encodeInputs_encodable e.throwsAt s.memory h.encodable
  have hquiet := encodeInputs_quiet cfg.npuValidateOpt e.alloc s.memory req.data
  rw [← h.quiet] at hquiet
  have hnone : -1 ∉ (encodeInputs cfg.npuValidateOpt e.alloc e.throwsAt s.memory req.data).1.codes :=
    fun hmem => absurd (hcodes _ hmem) (by decide)
  refine ⟨(encodeInputs cfg.npuValidateOpt e.alloc e.throwsAt s.memory req.data).1.memory, ?_⟩
  simp only [State.encode, if_neg hnone]
  cases houtcome : (encodeInputs cfg.npuValidateOpt e.alloc e.throwsAt s.memory req.data).2 with
  | returned ret => exact ⟨ret, rfl⟩
  | threw => exact absurd houtcome hquiet
  | ended => exact absurd houtcome hended

/-- A request that is encoded is submitted, when there is a device. -/
theorem handleInput_found {cfg : Config} {req : Request} {e : Circumstances}
    (h : Encodes cfg req e) (hfound : Found cfg req) (s : State) (serial : ℕ) :
    ∃ memory, s.handleInput cfg serial req e = State.submit { s with memory } serial e := by
  obtain ⟨memory, ret, heq⟩ := encode_encodes h s serial
  refine ⟨memory, ?_⟩
  rw [State.handleInput, heq]
  simp only
  split_ifs with hcommon
  · obtain ⟨hnonneg, hdevice⟩ := hfound hcommon
    rw [State.submitCommon, if_neg hnonneg.not_gt, hdevice]
  · rfl

/-- Without a device there is an error, or an exception. -/
theorem handleInput_missing {cfg : Config} {req : Request} {e : Circumstances}
    (h : Encodes cfg req e) (hmissing : ¬ Found cfg req)
    (hid : cfg.deviceId = COMMON_NFH_LAYER_DEVICE_ID → 0 ≤ req.deviceId) (s : State)
    (serial : ℕ) : ∃ memory result, result ≠ some 0 ∧
      s.handleInput cfg serial req e = ⟨{ s with memory }, result, false⟩ := by
  obtain ⟨memory, ret, heq⟩ := encode_encodes h s serial
  rw [Found, not_forall] at hmissing
  obtain ⟨hcommon, hdevice⟩ := hmissing
  refine ⟨memory, ?_⟩
  rw [State.handleInput, heq]
  simp only [if_pos hcommon, State.submitCommon, if_neg (hid hcommon).not_gt]
  cases hlayer : cfg.taskLayers[req.deviceId.toNat]? with
  | none => exact ⟨none, nofun, rfl⟩
  | some found =>
    cases found with
    | false => exact ⟨some (-1), by decide, rfl⟩
    | true => exact absurd ⟨hid hcommon, hlayer⟩ hdevice

/-! ### The invariant -/

/-- Nothing is rejected; a request that is not handed over yet leaves no trace; with workers one of
    each kind is left, and without workers nothing is queued. -/
structure Inv (cfg : Config) (s : State) (work : List Work) : Prop where
  once : ∀ serial < s.handed, reports s.log serial + (work.map Work.serial).count serial = 1
  fresh : ∀ serial ≥ s.handed,
    reports s.log serial = 0 ∧ (work.map Work.serial).count serial = 0
  accepted : ∀ serial, .rejected serial ∉ s.log
  running : .ended ∉ s.log
  workers : cfg.isDynamic = true → 0 < s.inputWorkers ∧ 0 < s.outputWorkers
  queued : cfg.isDynamic = false → ∀ w ∈ work, ∃ serial req, w = .device serial req

theorem Inv.served {cfg : Config} {s : State} {work : List Work} (h : Inv cfg s work) :
    Served cfg s work where
  once := h.once
  goesOn w hw e := by
    cases hdynamic : cfg.isDynamic with
    | true =>
      obtain ⟨hin, hout⟩ := h.workers hdynamic
      cases w with
      | input serial req => simp only [system, if_neg hin.ne', Option.isSome_some]
      | device serial req => simp only [system]; split_ifs <;> rfl
      | output serial req => simp only [system, if_neg hout.ne', Option.isSome_some]
    | false =>
      obtain ⟨serial, req, rfl⟩ := h.queued hdynamic w hw
      simp only [system]
      split_ifs <;> rfl
  notRun serial hmem := absurd hmem (h.accepted serial)
  running := h.running

theorem inv_init (cfg : Config) (memory : ProcessMemory) {inputWorkers outputWorkers : ℕ}
    (hin : 0 < inputWorkers) (hout : 0 < outputWorkers) :
    Inv cfg (init memory inputWorkers outputWorkers) [] where
  once _ hlt := absurd hlt (Nat.not_lt_zero _)
  fresh _ _ := ⟨rfl, rfl⟩
  accepted _ := nofun
  running := nofun
  workers _ := ⟨hin, hout⟩
  queued _ _ hw := by cases hw

theorem Inv.perm {cfg : Config} {s : State} {work work' : List Work} (hperm : work.Perm work')
    (h : Inv cfg s work) : Inv cfg s work' := by
  have hcount : ∀ serial, (work.map Work.serial).count serial =
      (work'.map Work.serial).count serial := fun serial => (hperm.map _).count_eq serial
  exact {
    once := fun serial hlt => hcount serial ▸ h.once serial hlt
    fresh := fun serial hge => hcount serial ▸ h.fresh serial hge
    accepted := h.accepted
    running := h.running
    workers := h.workers
    queued := fun hdynamic w hw => h.queued hdynamic w (hperm.mem_iff.mpr hw) }

theorem reports_submitted (log : List Event) (serial k : ℕ) :
    reports (.submitted k :: log) serial = reports log serial := by
  simp [reports]

theorem reports_callback (log : List Event) (serial k : ℕ) :
    reports (.callback k :: log) serial = reports log serial + if k = serial then 1 else 0 := by
  simp only [reports, List.count_cons, beq_iff_eq, Event.callback.injEq, reduceCtorEq, if_false]
  omega

theorem reports_surfaced (log : List Event) (serial k : ℕ) :
    reports (.surfaced k :: log) serial = reports log serial + if k = serial then 1 else 0 := by
  simp only [reports, List.count_cons, beq_iff_eq, Event.surfaced.injEq, reduceCtorEq, if_false]
  omega

/-- The request at the front goes on to its next place. -/
theorem Inv.move {cfg : Config} {s s' : State} {w w' : Work} {rest : List Work}
    (h : Inv cfg s (w :: rest)) (hserial : w'.serial = w.serial) (hhanded : s'.handed = s.handed)
    (hlog : s'.log = s.log ∨ ∃ k, s'.log = .submitted k :: s.log)
    (hworkers : s'.inputWorkers = s.inputWorkers ∧ s'.outputWorkers = s.outputWorkers)
    (hqueued : cfg.isDynamic = false → ∃ serial req, w' = .device serial req) :
    Inv cfg s' (w' :: rest) := by
  have hreports : ∀ serial, reports s'.log serial = reports s.log serial := by
    intro serial
    rcases hlog with hlog | ⟨k, hlog⟩
    · rw [hlog]
    · rw [hlog, reports_submitted]
  have hmem : ∀ event, (∀ k, event ≠ .submitted k) → event ∈ s'.log → event ∈ s.log := by
    intro event hne hevent
    rcases hlog with hlog | ⟨k, hlog⟩
    · rwa [hlog] at hevent
    · rw [hlog] at hevent
      exact (List.mem_cons.mp hevent).resolve_left (hne k)
  have hcount : ((w' :: rest).map Work.serial) = ((w :: rest).map Work.serial) := by
    rw [List.map_cons, List.map_cons, hserial]
  exact {
    once := fun serial hlt => by
      rw [hreports, hcount]
      exact h.once serial (hhanded ▸ hlt)
    fresh := fun serial hge => by
      rw [hreports, hcount]
      exact h.fresh serial (hhanded ▸ hge)
    accepted := fun serial hevent => h.accepted serial (hmem _ (fun _ => nofun) hevent)
    running := fun hevent => h.running (hmem _ (fun _ => nofun) hevent)
    workers := fun hdynamic => by
      rw [hworkers.1, hworkers.2]
      exact h.workers hdynamic
    queued := fun hdynamic => List.forall_mem_cons.mpr
      ⟨hqueued hdynamic, fun w hw => h.queued hdynamic w (List.mem_cons_of_mem _ hw)⟩ }

/-- The request at the front is reported. -/
theorem Inv.report {cfg : Config} {s s' : State} {w : Work} {rest : List Work}
    (h : Inv cfg s (w :: rest)) (hhanded : s'.handed = s.handed)
    (hlog : s'.log = .callback w.serial :: s.log)
    (hworkers : cfg.isDynamic = true → 0 < s'.inputWorkers ∧ 0 < s'.outputWorkers) :
    Inv cfg s' rest := by
  have hcount : ∀ serial, ((w :: rest).map Work.serial).count serial =
      (rest.map Work.serial).count serial + if w.serial = serial then 1 else 0 := by
    intro serial
    simp only [List.map_cons, List.count_cons, beq_iff_eq]
  exact {
    once := fun serial hlt => by
      have hold := h.once serial (hhanded ▸ hlt)
      rw [hcount] at hold
      rw [hlog, reports_callback]
      omega
    fresh := fun serial hge => by
      obtain ⟨hreports, hold⟩ := h.fresh serial (hhanded ▸ hge)
      rw [hcount] at hold
      rw [hlog, reports_callback, hreports]
      omega
    accepted := fun serial hevent => by
      rw [hlog] at hevent
      exact h.accepted serial ((List.mem_cons.mp hevent).resolve_left nofun)
    running := fun hevent => by
      rw [hlog] at hevent
      exact h.running ((List.mem_cons.mp hevent).resolve_left nofun)
    workers := hworkers
    queued := fun hdynamic w hw => h.queued hdynamic w (List.mem_cons_of_mem _ hw) }

/-- A decoded answer calls the response callback. -/
theorem handleOutput_decoded {s : State} {serial : ℕ} {e : Circumstances}
    (h : e.decode = .decoded) : s.handleOutput serial e =
      (s.note (.callback serial), decide (e.callbackThrows = some .other)) := by
  rw [State.handleOutput, h]

theorem inv_work {cfg : Config} {s s' : State} {w : Work} {rest new : List Work}
    {e : Circumstances} (h : Inv cfg s (w :: rest)) (hok : Smooth cfg s w e)
    (hexec : (system cfg).exec s w e = some (s', new)) : Inv cfg s' (new ++ rest) := by
  cases w with
  | input serial req =>
    obtain ⟨hencodes, hfound, haccepts⟩ := hok
    obtain ⟨memory, heq⟩ := handleInput_found hencodes hfound s serial
    simp only [system, heq, State.submit, haccepts, reduceCtorEq, if_false, if_true] at hexec
    split_ifs at hexec with hidle
    cases hexec
    exact h.move rfl rfl (Or.inr ⟨serial, rfl⟩) ⟨rfl, rfl⟩ fun _ => ⟨serial, req, rfl⟩
  | device serial req =>
    obtain ⟨hanswers, hdecode⟩ := hok
    simp only [system, if_pos hanswers, State.processResponse] at hexec
    have hown : ¬ (cfg.deviceId ≠ COMMON_NFH_LAYER_DEVICE_ID ∧
        answeringDevice cfg req ≠ cfg.deviceId) := by
      rw [answeringDevice]
      split_ifs with hcommon
      · exact fun hne => hne.1 hcommon
      · exact fun hne => hne.2 rfl
    rw [if_neg hown] at hexec
    split_ifs at hexec with hdynamic <;> cases hexec
    · exact h.move rfl rfl (Or.inl rfl) ⟨rfl, rfl⟩ fun hsync => absurd hdynamic (by simp [hsync])
    · rw [handleOutput_decoded (hdecode (by simpa using hdynamic))]
      exact h.report rfl rfl fun hd => absurd hd hdynamic
  | output serial req =>
    obtain ⟨hdecode, hlast⟩ := hok
    simp only [system, handleOutput_decoded hdecode, decide_eq_true_eq] at hexec
    split_ifs at hexec with hidle hescapes <;> cases hexec
    · refine h.report rfl rfl fun hdynamic => ⟨(h.workers hdynamic).1, ?_⟩
      exact Nat.sub_pos_of_lt (hlast hescapes)
    · exact h.report rfl rfl h.workers

/-- A request that is handed over is somewhere, or its end is reported to the caller. -/
theorem Inv.arrived {cfg : Config} {s s' : State} {work new : List Work} (h : Inv cfg s work)
    (hhanded : s'.handed = s.handed + 1)
    (hserial : new = [] ∧ (s'.log = .surfaced s.handed :: s.log ∨
        ∃ k, s'.log = .surfaced s.handed :: .submitted k :: s.log) ∨
      ∃ w, new = [w] ∧ w.serial = s.handed ∧
        (s'.log = s.log ∨ ∃ k, s'.log = .submitted k :: s.log) ∧
        (cfg.isDynamic = false → ∃ serial req, w = .device serial req))
    (hworkers : s'.inputWorkers = s.inputWorkers ∧ s'.outputWorkers = s.outputWorkers) :
    Inv cfg s' (new ++ work) := by
  -- whatever the case, one report or one place more, of the new request
  have htotal : ∀ serial, reports s'.log serial + ((new ++ work).map Work.serial).count serial =
      reports s.log serial + (work.map Work.serial).count serial +
        if s.handed = serial then 1 else 0 := by
    intro serial
    rcases hserial with ⟨rfl, hlog | ⟨k, hlog⟩⟩ | ⟨w, rfl, hw, hlog | ⟨k, hlog⟩, -⟩
    all_goals
      simp only [hlog, reports_surfaced, reports_submitted, List.nil_append, List.cons_append,
        List.map_cons, List.count_cons, beq_iff_eq]
    · omega
    · omega
    · rw [hw]; omega
    · rw [hw]; omega
  have hmem : ∀ event, (∀ k, event ≠ .submitted k) → (∀ k, event ≠ .surfaced k) →
      event ∈ s'.log → event ∈ s.log := by
    intro event hsubmitted hsurfaced hevent
    rcases hserial with ⟨-, hlog | ⟨k, hlog⟩⟩ | ⟨w, -, -, hlog | ⟨k, hlog⟩, -⟩ <;>
      simp only [hlog, List.mem_cons, hsubmitted, hsurfaced, false_or] at hevent <;> exact hevent
  refine ⟨fun serial hlt => ?_, fun serial hge => ?_, fun serial hevent => ?_, fun hevent => ?_,
    fun hdynamic => ?_, fun hdynamic => ?_⟩
  · rw [htotal]
    rcases (Nat.lt_succ_iff_lt_or_eq.mp (hhanded ▸ hlt)) with hold | rfl
    · rw [h.once serial hold, if_neg hold.ne']
    · obtain ⟨hreports, hcount⟩ := h.fresh s.handed le_rfl
      rw [hreports, hcount, if_pos rfl]
  · have hold : s.handed < serial := by omega
    obtain ⟨hreports, hcount⟩ := h.fresh serial hold.le
    have hsum := htotal serial
    rw [hreports, hcount, if_neg hold.ne] at hsum
    omega
  · exact h.accepted serial (hmem _ (fun _ => nofun) (fun _ => nofun) hevent)
  · exact h.running (hmem _ (fun _ => nofun) (fun _ => nofun) hevent)
  · rw [hworkers.1, hworkers.2]
    exact h.workers hdynamic
  · intro w hw
    rcases List.mem_append.mp hw with hw | hw
    · rcases hserial with ⟨rfl, -⟩ | ⟨w', rfl, -, -, hqueued⟩
      · cases hw
      · exact List.mem_singleton.mp hw ▸ hqueued hdynamic
    · exact h.queued hdynamic w hw

theorem inv_arrive {cfg : Config} {s s' : State} {work new : List Work}
    {a : Request × Circumstances} (h : Inv cfg s work) (hok : SmoothArrival cfg s a)
    (harrive : (system cfg).arrive s a = some (s', new)) : Inv cfg s' (new ++ work) := by
  obtain ⟨req, e⟩ := a
  simp only [system, State.inferenceRequest, Option.some.injEq] at harrive
  by_cases hmismatch : cfg.deviceId ≠ COMMON_NFH_LAYER_DEVICE_ID ∧ req.deviceId ≠ cfg.deviceId
  · rw [if_pos hmismatch] at harrive
    cases harrive
    exact h.arrived rfl (Or.inl ⟨rfl, Or.inl rfl⟩) ⟨rfl, rfl⟩
  rw [if_neg hmismatch] at harrive
  by_cases hdynamic : cfg.isDynamic = true
  · rw [if_pos hdynamic] at harrive
    cases harrive
    exact h.arrived rfl (Or.inr ⟨_, rfl, rfl, Or.inl rfl,
      fun hsync => absurd hdynamic (by simp [hsync])⟩) ⟨rfl, rfl⟩
  rw [if_neg hdynamic] at harrive
  obtain ⟨hencodes, hdevice, hid⟩ : Encodes cfg req e ∧
      (Found cfg req → e.device = .accepts ∨ e.device = .throws .other) ∧
      (cfg.deviceId = COMMON_NFH_LAYER_DEVICE_ID → 0 ≤ req.deviceId) :=
    (hok.resolve_left hdynamic).resolve_left hmismatch
  by_cases hfound : Found cfg req
  · obtain ⟨memory, heq⟩ := handleInput_found hencodes hfound
      { s with handed := s.handed + 1 } s.handed
    rcases hdevice hfound with haccepts | hthrows
    · simp only [heq, State.submit, haccepts, if_true] at harrive
      cases harrive
      exact h.arrived rfl (Or.inr ⟨_, rfl, rfl, Or.inr ⟨_, rfl⟩, fun _ => ⟨_, _, rfl⟩⟩) ⟨rfl, rfl⟩
    · simp only [heq, State.submit, hthrows, reduceCtorEq, Bool.false_eq_true, if_false] at harrive
      cases harrive
      exact h.arrived rfl (Or.inl ⟨rfl, Or.inr ⟨_, rfl⟩⟩) ⟨rfl, rfl⟩
  · obtain ⟨memory, result, hresult, heq⟩ := handleInput_missing hencodes hfound hid
      { s with handed := s.handed + 1 } s.handed
    simp only [heq, if_neg hresult, Bool.false_eq_true, if_false] at harrive
    cases harrive
    exact h.arrived rfl (Or.inl ⟨rfl, Or.inl rfl⟩) ⟨rfl, rfl⟩

/-- In every run whose steps meet no failure that would be forgotten, each request handed over is
    reported exactly once or is in one place from which it goes on, and no rejected request is
    run. -/
theorem requests_served (cfg : Config) (memory : ProcessMemory) {inputWorkers outputWorkers : ℕ}
    (hin : 0 < inputWorkers) (hout : 0 < outputWorkers) {c : Workers.Config State Work}
    (hrun : Relation.ReflTransGen (Step (system cfg) (Smooth cfg) (SmoothArrival cfg))
      ⟨init memory inputWorkers outputWorkers, []⟩ c) : Served cfg c.shared c.work :=
  have hinv : Inv cfg c.shared c.work := Workers.invariant (fun _ _ _ hperm h => h.perm hperm)
    (fun _ _ _ _ _ _ h hok hexec => inv_work h hok hexec)
    (fun _ _ _ _ _ h hok harrive => inv_arrive h hok harrive) hrun
    (inv_init cfg memory hin hout)
  hinv.served

/-- The common layer in front of one device. -/
def oneDevice : Config := ⟨COMMON_NFH_LAYER_DEVICE_ID, true, false, [true]⟩

/-- A request with one input of two channels in groups of 16. -/
def oneInput (size : ℕ) : Request where
  deviceId := 0
  data :=
    { inputs := [⟨size, 4096⟩]
      outputs := 1
      encodedInputsPtr := 8192
      encodedInputPtrs := [8192]
      npuInputTensorInfos := [⟨.formatted, .none, [2, 2], .uint8, 16⟩]
      encodedInputSizes := [32] }

/-- Everything goes well but what an encoder returns. -/
def fine : Circumstances :=
  ⟨fun _ => ⟨true, true⟩, none, .accepts, true, .decoded, none⟩

theorem oneInput_encodes : Encodes oneDevice (oneInput 4) fine where
  encodable := by
    intro _ x hx _
    obtain rfl := Option.some.inj hx
    refine ⟨Or.inr ⟨2, rfl, ?_⟩, trivial⟩
    exact ⟨by decide, by decide, by decide, by decide, by decide, by decide, by decide +kernel⟩
  quiet := rfl

/-- The item at the front goes on. -/
theorem step_front {ok : State → Work → Circumstances → Prop}
    {allowed : State → Request × Circumstances → Prop} {cfg : Config} {s s' : State}
    {new rest : List Work} (w : Work) (e : Circumstances) (hok : ok s w e)
    (h : (system cfg).exec s w e = some (s', new)) :
    Step (system cfg) ok allowed ⟨s, w :: rest⟩ ⟨s', new ++ rest⟩ :=
  @Step.work _ _ _ _ _ _ _ _ _ [] _ _ _ _ hok h

theorem oneInput_found (size : ℕ) : Found oneDevice (oneInput size) :=
  fun _ => ⟨le_rfl, rfl⟩

/-- A request with whole rows is encoded, run, decoded and answered once. -/
theorem requests_served_whole_rows : ∃ c : Workers.Config State Work,
    .callback 0 ∈ c.shared.log ∧ c.work = [] ∧ Served oneDevice c.shared c.work := by
  let s₀ : State := { init (fun _ => 0) 1 1 with handed := 1 }
  obtain ⟨memory, hinput⟩ := handleInput_found oneInput_encodes (oneInput_found 4) s₀ 0
  let s₁ : State := { s₀ with memory }.note (.submitted 0)
  have hexec : (system oneDevice).exec s₀ (.input 0 (oneInput 4)) fine =
      some (s₁, [.device 0 (oneInput 4)]) := by
    simp only [system, hinput]
    rfl
  have hrun : Relation.ReflTransGen (Step (system oneDevice) (Smooth oneDevice)
      (SmoothArrival oneDevice)) ⟨init (fun _ => 0) 1 1, []⟩ ⟨s₁.note (.callback 0), []⟩ :=
    (Relation.ReflTransGen.refl
      ).tail (@Step.arrive _ _ _ _ _ _ _ _ s₀ _ _ (oneInput 4, fine) (Or.inl rfl) rfl)
      |>.tail (@step_front _ _ _ _ s₁ _ [] (.input 0 (oneInput 4)) fine
        ⟨oneInput_encodes, oneInput_found 4, rfl⟩ hexec)
      |>.tail (@step_front _ _ _ _ s₁ _ [] (.device 0 (oneInput 4)) fine ⟨rfl, fun _ => rfl⟩ rfl)
      |>.tail (@step_front (Smooth oneDevice) _ _ s₁ _ _ [] (.output 0 (oneInput 4)) fine
        ⟨rfl, nofun⟩ rfl)
  exact ⟨_, List.mem_cons_self, rfl, requests_served oneDevice _ one_pos one_pos hrun⟩

/-- Three bytes are not whole rows of two channels: the encoder returns -1, and the request is
    submitted all the same. -/
theorem rejected_submitted : ¬ ∀ c, Relation.ReflTransGen
    (Step (system oneDevice) (fun _ _ _ => True) fun _ _ => True)
      ⟨init (fun _ => 0) 1 1, []⟩ c → Served oneDevice c.shared c.work := by
  intro hall
  have hrun : Relation.ReflTransGen (Step (system oneDevice) (fun _ _ _ => True) fun _ _ => True)
      ⟨init (fun _ => 0) 1 1, []⟩ _ :=
    (Relation.ReflTransGen.refl
      ).tail (@Step.arrive _ _ _ _ _ _ _ _ _ _ _ (oneInput 3, fine) trivial rfl)
      |>.tail (step_front (.input 0 (oneInput 3)) fine trivial rfl)
  exact (hall _ hrun).notRun 0 (by decide +kernel) (by decide +kernel)

end DxRt.NFHLayer
