import DxRt.Device.CacheSlices

/-! What a request has on its way through the device pool.

    An object of the request pool is on its way at most once, and what it has depends on how far it
    has come: nothing before the pick, `_ioSlice` up to `InferenceRequestACC`, then an allocation on
    its device, which is the device that is noted when it is answered. Nothing of this is left when
    the object is used again. -/

namespace DxRt.Pipeline
open Workers DevicePool

variable {n : ℕ} {cfg : Config} {s s' : DevicePool n} {work new : List (Work n)} {w : Work n}
  {e : Circumstances} {d d' : Fin n} {r r' : ℕ} {t : ℤ}

/-! ### Orderly steps -/

/-- What must not happen: that `PrepareZeroCopyIo` gets a slice that is not valid, that
    `InferenceRequestACC` throws with a slice in hand, and that the flag for released buffers is
    still up from an earlier use when the buffers of a request are released. -/
def SliceOrderly (cfg : Config) (s : DevicePool n) : Work n → Circumstances → Prop
  | .picked d r, e => e.throws = false → ZeroCopyValid cfg s d r
  | .inferenceRequest d r, e => (s.taskLayers d).type = .acc →
      ((s.taskLayers d).manager? (s.request r).task.id).isSome = true → e.throwsLate = false
  | .completed r, _ => (s.request r).bufferReleased = false
  | _, _ => True

instance (cfg : Config) (s : DevicePool n) : ∀ w e, Decidable (SliceOrderly cfg s w e)
  | .picked .., _ => inferInstanceAs (Decidable (_ = false → ZeroCopyValid _ _ _ _))
  | .inferenceRequest .., _ => inferInstanceAs (Decidable (_ = _ → _ = true → _ = false))
  | .completed _, _ => inferInstanceAs (Decidable (_ = false))
  | .created _, _ | .nfhInput .., _ | .input .., _ | .handleInferenceAcc .., _ | .running .., _
  | .output .., _ | .eraseOngoing .., _ | .nfhOutput .., _ | .cleared _, _ => .isTrue trivial

/-! ### The way of a request -/

/-- The request that an item moves on; an answer that carries another process id is ignored. -/
def Work.life (cfg : Config) : Work n → Option ℕ
  | .created r | .picked _ r | .nfhInput _ r | .inferenceRequest _ r | .input _ r | .nfhOutput _ r
  | .completed r => some r
  | .handleInferenceAcc _ acc | .running _ acc =>
    if acc.procId = cfg.pid then some acc.reqId else none
  | .output _ response => if response.procId = cfg.pid then some response.reqId else none
  | .eraseOngoing .. | .cleared _ => none

def lives (cfg : Config) (work : List (Work n)) : List ℕ := work.filterMap (Work.life cfg)

/-- A request has no slice. -/
def Idle (s : DevicePool n) (r : ℕ) : Prop :=
  (s.request r).ioSlice = none ∧ ∀ d, alloc s d r = none

/-- A request has at most an allocation on the device `d`. -/
def OnDevice (s : DevicePool n) (d : Fin n) (r : ℕ) : Prop :=
  (s.request r).ioSlice = none ∧ ∀ d', d' ≠ d → alloc s d' r = none

/-- What the request of an item has. -/
def Has (cfg : Config) (s : DevicePool n) : Work n → Prop
  | .created r | .picked _ r => Idle s r
  | .nfhInput d r | .inferenceRequest d r =>
    (∀ p ∈ (s.request r).ioSlice, p.1 = d ∧ (s.taskLayers d).type = .acc) ∧ ∀ d', alloc s d' r = none
  | .input d r => (s.taskLayers d).type = .acc ∧ OnDevice s d r
  | .handleInferenceAcc d acc =>
    (s.taskLayers d).type = .acc ∧ (acc.procId = cfg.pid → OnDevice s d acc.reqId)
  | .running d acc => (acc.procId = cfg.pid ∨ (s.taskLayers d).type = .acc) ∧
      (acc.procId = cfg.pid → OnDevice s d acc.reqId)
  | .output d response => response.procId = cfg.pid → OnDevice s d response.reqId
  | .nfhOutput d r => OnDevice s d r ∧ (s.request r).processedDevId = some d
  | .completed r => (s.request r).ioSlice = none ∧
      ∀ d, alloc s d r ≠ none → (s.request r).processedDevId = some d
  | .eraseOngoing .. | .cleared _ => True

/-- The driver requests carry the id of this process, or zeros. -/
def Stamped (cfg : Config) (layer : TaskLayer) : Prop :=
  ∀ r acc, layer.ongoingRequests.find? r = some acc → acc = ⟨r, cfg.pid⟩ ∨ acc = ⟨0, 0⟩

/-- Requests that are not in use have no slice, and devices of the other kind no allocations. -/
structure Sound (cfg : Config) (s : DevicePool n) : Prop where
  idle : ∀ r, (s.request r).useFlag = false → Idle s r
  std : ∀ d r, (s.taskLayers d).type = .std → alloc s d r = none
  stamped : ∀ d, Stamped cfg (s.taskLayers d)

structure LifeInv (cfg : Config) (s : DevicePool n) (work : List (Work n)) : Prop where
  sound : Sound cfg s
  nodup : (lives cfg work).Nodup
  used : ∀ r ∈ lives cfg work, (s.request r).useFlag = true
  has : ∀ w ∈ work, Has cfg s w

/-! ### Frames -/

/-- What the request `r` has is the same. -/
structure SameRequest (s s' : DevicePool n) (r : ℕ) : Prop where
  useFlag : (s'.request r).useFlag = (s.request r).useFlag
  ioSlice : (s'.request r).ioSlice = (s.request r).ioSlice
  processedDevId : (s'.request r).processedDevId = (s.request r).processedDevId
  alloc : ∀ d, alloc s' d r = alloc s d r

/-- Only the request `r` is touched. -/
structure Touches (s s' : DevicePool n) (r : ℕ) : Prop where
  others : ∀ r', r' ≠ r → SameRequest s s' r'
  type : ∀ d, (s'.taskLayers d).type = (s.taskLayers d).type

namespace Touches

theorem trans {s'' : DevicePool n} (h : Touches s s' r) (h' : Touches s' s'' r) :
    Touches s s'' r where
  others r' hr :=
    have h₁ := h.others r' hr
    have h₂ := h'.others r' hr
    ⟨h₂.useFlag.trans h₁.useFlag, h₂.ioSlice.trans h₁.ioSlice,
      h₂.processedDevId.trans h₁.processedDevId, fun d => (h₂.alloc d).trans (h₁.alloc d)⟩
  type d := (h'.type d).trans (h.type d)

theorem of_same (h : SameHold s s') : Touches s s' r where
  others r' _ := ⟨by rw [h.request], by rw [h.request], by rw [h.request], fun d => h.alloc d r'⟩
  type := h.type

theorem setRequest (req : Request n) : Touches s (s.setRequest r req) r where
  others r' hr := by
    have hreq : (s.setRequest r req).request r' = s.request r' := by
      rw [request_setRequest, if_neg hr]
    exact ⟨by rw [hreq], by rw [hreq], by rw [hreq], fun _ => rfl⟩
  type _ := rfl

theorem setManager (m : TaskNpuMemoryCacheManager) :
    Touches s (s.setLayer d ((s.taskLayers d).setManager t m)) r where
  others _ _ := ⟨rfl, rfl, rfl, fun _ => alloc_setManager m⟩
  type _ := type_setManager m

theorem enter (x : NpuMemoryCacheSlice) : Touches s (s.enter cfg d r x) r where
  others r' hr := ⟨rfl, rfl, rfl, fun d' => by rw [alloc_enter, if_neg fun hc => hr hc.2]⟩
  type d' := by
    rw [DevicePool.enter, taskLayers_setLayer]
    split_ifs with hd
    · rw [hd]
    · rfl

theorem release : Touches s (s.setLayer d ((s.taskLayers d).releaseInferenceCache r)) r where
  others r' hr := ⟨rfl, rfl, rfl, fun d' => by rw [alloc_release, if_neg fun hc => hr hc.2]⟩
  type _ := type_release

end Touches

/-- An item whose request is not touched keeps what it has. -/
theorem Has.congr (h : Has cfg s w) (htype : ∀ d, (s'.taskLayers d).type = (s.taskLayers d).type)
    (hsame : ∀ r, w.life cfg = some r → SameRequest s s' r) : Has cfg s' w := by
  have hidle : ∀ {r}, SameRequest s s' r → Idle s r → Idle s' r := fun hr hidle =>
    ⟨hr.ioSlice.trans hidle.1, fun d => (hr.alloc d).trans (hidle.2 d)⟩
  have hon : ∀ {d r}, SameRequest s s' r → OnDevice s d r → OnDevice s' d r := fun hr hon =>
    ⟨hr.ioSlice.trans hon.1, fun d' hd => (hr.alloc d').trans (hon.2 d' hd)⟩
  cases w with
  | created r | picked d r => exact hidle (hsame r rfl) h
  | nfhInput d r | inferenceRequest d r =>
    have hr := hsame r rfl
    refine ⟨fun p hp => ?_, fun d' => (hr.alloc d').trans (h.2 d')⟩
    rw [htype]
    exact h.1 p (hr.ioSlice ▸ hp)
  | input d r => exact ⟨(htype d).trans h.1, hon (hsame r rfl) h.2⟩
  | handleInferenceAcc d acc =>
    exact ⟨(htype d).trans h.1, fun hpid => hon (hsame _ (if_pos hpid)) (h.2 hpid)⟩
  | running d acc =>
    exact ⟨h.1.imp_right (htype d).trans, fun hpid => hon (hsame _ (if_pos hpid)) (h.2 hpid)⟩
  | output d response => exact fun hpid => hon (hsame _ (if_pos hpid)) (h hpid)
  | nfhOutput d r =>
    have hr := hsame r rfl
    exact ⟨hon hr h.1, hr.processedDevId.trans h.2⟩
  | completed r =>
    have hr := hsame r rfl
    refine ⟨hr.ioSlice.trans h.1, fun d halloc => hr.processedDevId.trans (h.2 d ?_)⟩
    rwa [← hr.alloc d]
  | eraseOngoing | cleared => trivial

theorem lives_append (l l' : List (Work n)) : lives cfg (l ++ l') = lives cfg l ++ lives cfg l' :=
  List.filterMap_append

theorem lives_cons (w : Work n) (l : List (Work n)) :
    lives cfg (w :: l) = (w.life cfg).toList ++ lives cfg l := by
  cases h : w.life cfg <;> simp [lives, h]

/-! ### What a step keeps -/

theorem stamped_setLayer {layer : TaskLayer} (h : ∀ d, Stamped cfg (s.taskLayers d))
    (hlayer : Stamped cfg layer) (d' : Fin n) :
    Stamped cfg ((s.setLayer d layer).taskLayers d') := by
  rw [taskLayers_setLayer]
  split_ifs
  · exact hlayer
  · exact h d'

theorem stamped_peek {layer : TaskLayer} (h : Stamped cfg layer) :
    Stamped cfg (layer.peekInference r).1 ∧
      ((layer.peekInference r).2 = ⟨r, cfg.pid⟩ ∨ (layer.peekInference r).2 = ⟨0, 0⟩) := by
  rw [TaskLayer.peekInference]
  cases hfind : layer.ongoingRequests.find? r with
  | some acc => exact ⟨h, h r acc hfind⟩
  | none =>
    refine ⟨fun r' acc hacc => ?_, Or.inr rfl⟩
    simp only [SortedMap.find?_insert] at hacc
    split_ifs at hacc
    · exact Or.inr (Option.some.inj hacc).symm
    · exact h r' acc hacc

theorem Sound.same (h : Sound cfg s) (hsame : SameHold s s')
    (hstamped : ∀ d, Stamped cfg (s'.taskLayers d)) : Sound cfg s' where
  idle r hflag := by
    rw [hsame.request] at hflag
    refine ⟨by rw [hsame.request]; exact (h.idle r hflag).1, fun d => ?_⟩
    rw [hsame.alloc]
    exact (h.idle r hflag).2 d
  std d r htype := by
    rw [hsame.type] at htype
    rw [hsame.alloc]
    exact h.std d r htype
  stamped := hstamped

/-- A request that is in use is touched. -/
theorem Sound.touched (h : Sound cfg s) (htouches : Touches s s' r)
    (hused : (s'.request r).useFlag = true)
    (hstd : ∀ d, (s.taskLayers d).type = .std → alloc s' d r = none)
    (hstamped : ∀ d, Stamped cfg (s'.taskLayers d)) : Sound cfg s' where
  idle r' hflag := by
    have hr : r' ≠ r := by
      rintro rfl
      rw [hused] at hflag
      cases hflag
    have hsame := htouches.others r' hr
    have hidle := h.idle r' (hsame.useFlag.symm.trans hflag)
    exact ⟨hsame.ioSlice.trans hidle.1, fun d => (hsame.alloc d).trans (hidle.2 d)⟩
  std d r' htype := by
    rw [htouches.type] at htype
    by_cases hr : r' = r
    · rw [hr]
      exact hstd d htype
    · rw [(htouches.others r' hr).alloc]
      exact h.std d r' htype
  stamped := hstamped

/-- What becomes of an item and of what its request has. -/
structure Kept (cfg : Config) (s : DevicePool n) (w : Work n) (s' : DevicePool n)
    (new : List (Work n)) : Prop where
  sound : Sound cfg s'
  others : ∀ r, w.life cfg ≠ some r → SameRequest s s' r
  type : ∀ d, (s'.taskLayers d).type = (s.taskLayers d).type
  lives : lives cfg new = (w.life cfg).toList ∨ lives cfg new = []
  used : ∀ r ∈ Pipeline.lives cfg new, (s'.request r).useFlag = (s.request r).useFlag
  has : ∀ w' ∈ new, Has cfg s' w'

/-- A step that leaves the slices alone. -/
theorem Kept.of_same (h : Sound cfg s) (hsame : SameHold s s')
    (hstamped : ∀ d, Stamped cfg (s'.taskLayers d))
    (hlives : Pipeline.lives cfg new = (w.life cfg).toList ∨ Pipeline.lives cfg new = [])
    (hhas : ∀ w' ∈ new, Has cfg s w') : Kept cfg s w s' new where
  sound := h.same hsame hstamped
  others r _ := ⟨by rw [hsame.request], by rw [hsame.request], by rw [hsame.request],
    fun d => hsame.alloc d r⟩
  type := hsame.type
  lives := hlives
  used r _ := by rw [hsame.request]
  has w' hw' := (hhas w' hw').congr hsame.type fun r _ =>
    ⟨by rw [hsame.request], by rw [hsame.request], by rw [hsame.request], fun d => hsame.alloc d r⟩

/-- A step that touches the request of its item. -/
theorem Kept.of_touches (h : Sound cfg s) (hlife : w.life cfg = some r)
    (htouches : Touches s s' r) (hused : (s.request r).useFlag = true)
    (hflag : (s'.request r).useFlag = (s.request r).useFlag)
    (hstd : ∀ d, (s.taskLayers d).type = .std → alloc s' d r = none)
    (hstamped : ∀ d, Stamped cfg (s'.taskLayers d))
    (hlives : Pipeline.lives cfg new = (w.life cfg).toList ∨ Pipeline.lives cfg new = [])
    (hhas : ∀ w' ∈ new, Has cfg s' w') : Kept cfg s w s' new where
  sound := h.touched htouches (hflag.trans hused) hstd hstamped
  others r' hr := htouches.others r' fun heq => hr (heq ▸ hlife)
  type := htouches.type
  lives := hlives
  used r' hr := by
    rw [hlife] at hlives
    rcases hlives with heq | heq
    · rw [heq, Option.toList_some, List.mem_singleton] at hr
      rw [hr, hflag]
    · rw [heq] at hr
      cases hr
  has := hhas

theorem LifeInv.step {rest : List (Work n)} (h : LifeInv cfg s (w :: rest))
    (hkept : Kept cfg s w s' new) : LifeInv cfg s' (new ++ rest) := by
  have hnodup := h.nodup
  have hused := h.used
  rw [lives_cons] at hnodup hused
  have hrest : ∀ r ∈ lives cfg rest, SameRequest s s' r := fun r hr => by
    refine hkept.others r fun heq => ?_
    have hdisjoint := List.disjoint_of_nodup_append hnodup
    exact hdisjoint (by rw [heq]; exact List.mem_singleton_self r) hr
  refine ⟨hkept.sound, ?_, fun r hr => ?_, fun w' hw' => ?_⟩
  · rw [lives_append]
    rcases hkept.lives with heq | heq
    · rwa [heq]
    · rw [heq]
      exact (List.nodup_append.mp hnodup).2.1
  · rw [lives_append] at hr
    rcases List.mem_append.mp hr with hr | hr
    · rw [hkept.used r hr]
      rcases hkept.lives with heq | heq
      · exact hused r (List.mem_append_left _ (heq ▸ hr))
      · rw [heq] at hr
        cases hr
    · rw [(hrest r hr).useFlag]
      exact hused r (List.mem_append_right _ hr)
  · rcases List.mem_append.mp hw' with hw' | hw'
    · exact hkept.has w' hw'
    · exact (h.has w' (List.mem_cons_of_mem _ hw')).congr hkept.type fun r hr =>
        hrest r (List.mem_filterMap.mpr ⟨w', hw', hr⟩)

theorem LifeInv.perm {work' : List (Work n)} (hp : work.Perm work') (h : LifeInv cfg s work) :
    LifeInv cfg s work' := by
  have hlives : (lives cfg work).Perm (lives cfg work') := hp.filterMap _
  exact ⟨h.sound, hlives.nodup_iff.mp h.nodup, fun r hr => h.used r (hlives.mem_iff.mpr hr),
    fun w hw => h.has w (hp.mem_iff.mpr hw)⟩

/-! ### The steps of a request -/

theorem kept_created (h : Sound cfg s) (hhas : Idle s r)
    (hexec : s.pickOneDevice e r = (s', new)) : Kept cfg s (.created r) s' new := by
  rw [pickOneDevice] at hexec
  split at hexec
  · obtain ⟨rfl, rfl⟩ := Prod.mk.inj hexec
    exact .of_same h (.refl s) h.stamped (Or.inr rfl) (by simp)
  · split_ifs at hexec <;> obtain ⟨rfl, rfl⟩ := Prod.mk.inj hexec
    · exact .of_same h (.refl s) h.stamped (Or.inr rfl) (by simp)
    · exact .of_same h (.refl s) h.stamped (Or.inl rfl) (by simpa [Has] using hhas)
  · next d _ =>
    obtain ⟨rfl, rfl⟩ := Prod.mk.inj hexec
    exact .of_same h .pick (stamped_setLayer h.stamped (h.stamped d)) (Or.inl rfl)
      (by simpa [Has] using hhas)

theorem kept_picked (h : Sound cfg s) (hhas : Idle s r) (hused : (s.request r).useFlag = true)
    (hok : e.throws = false → ZeroCopyValid cfg s d r)
    (hexec : s.prepare cfg e d r = (s', new)) : Kept cfg s (.picked d r) s' new := by
  rw [prepare] at hexec
  by_cases hthrows : e.throws = true
  · rw [if_pos hthrows] at hexec
    obtain ⟨rfl, rfl⟩ := Prod.mk.inj hexec
    exact .of_same h .callBack (stamped_setLayer h.stamped (h.stamped d)) (Or.inr rfl) (by simp)
  rw [if_neg hthrows] at hexec
  cases hprepare : s.prepareZeroCopyIo cfg d r with
  | none =>
    rw [hprepare] at hexec
    obtain ⟨rfl, rfl⟩ := Prod.mk.inj hexec
    exact .of_same h (.refl s) h.stamped (Or.inl rfl) (by simpa [Has] using hhas)
  | some s₁ =>
    rw [hprepare] at hexec
    simp only at hexec
    have hend : s' = s₁ ∧ (new = [] ∨ new = [.nfhInput d r]) := by
      split_ifs at hexec <;> obtain ⟨rfl, rfl⟩ := Prod.mk.inj hexec
      · exact ⟨rfl, Or.inl rfl⟩
      · exact ⟨rfl, Or.inr rfl⟩
    obtain ⟨rfl, hnew⟩ := hend
    have hlives : lives cfg new = (Work.life cfg (.picked d r : Work n)).toList ∨
        lives cfg new = [] := by
      rcases hnew with rfl | rfl
      · exact Or.inr rfl
      · exact Or.inl rfl
    have hnfh : Has cfg s' (.nfhInput d r) → ∀ w' ∈ new, Has cfg s' w' := fun hitem w' hw' => by
      rcases hnew with rfl | rfl
      · cases hw'
      · rw [List.mem_singleton.mp hw']
        exact hitem
    rcases zeroCopy_cases (hok (by simpa using hthrows)) hprepare with
      rfl | ⟨htype, m, x, rest, hm, hget, rfl | rfl⟩
    · refine .of_same h (.refl s') h.stamped hlives (hnfh ⟨fun p hp => ?_, hhas.2⟩)
      rw [hhas.1] at hp
      cases hp
    · refine .of_touches h rfl (.setManager _) hused rfl (fun d' htype' => ?_)
        (stamped_setLayer h.stamped (h.stamped d)) hlives (hnfh ⟨fun p hp => ?_, fun d' => ?_⟩)
      · rw [alloc_setManager]
        exact h.std d' r htype'
      · change p ∈ (s.request r).ioSlice at hp
        rw [hhas.1] at hp
        cases hp
      · rw [alloc_setManager]
        exact hhas.2 d'
    · refine .of_touches h rfl ((Touches.setManager rest).trans (.setRequest _)) hused ?_
        (fun d' htype' => ?_) (stamped_setLayer h.stamped (h.stamped d)) hlives
        (hnfh ⟨fun p hp => ?_, fun d' => ?_⟩)
      · rw [request_setRequest, if_pos rfl]
      · exact (alloc_setManager rest).trans (h.std d' r htype')
      · rw [request_setRequest, if_pos rfl] at hp
        obtain rfl : p = (d, x) := (Option.some.inj hp).symm
        exact ⟨rfl, (type_setManager rest).trans htype⟩
      · exact (alloc_setManager rest).trans (hhas.2 d')

/-- The request has no `_ioSlice` any more, and nothing else of what it has is changed. -/
structure Taken (cfg : Config) (s s' : DevicePool n) (r : ℕ) : Prop where
  touches : Touches s s' r
  ioSlice : (s'.request r).ioSlice = none
  useFlag : (s'.request r).useFlag = (s.request r).useFlag
  alloc : ∀ d, alloc s' d r = alloc s d r
  stamped : ∀ d, Stamped cfg (s'.taskLayers d)

theorem taken_cacheSlice {x : NpuMemoryCacheSlice} (hstamped : ∀ d, Stamped cfg (s.taskLayers d))
    (h : s.cacheSlice e d r = some (x, s')) : Taken cfg s s' r := by
  rcases cacheSlice_cases h with ⟨_, _, rfl⟩ | ⟨hnone, ⟨_, rfl⟩ | ⟨m, rest, _, _, rfl⟩⟩
  · refine ⟨.setRequest _, ?_, ?_, fun _ => rfl, hstamped⟩
    · rw [request_setRequest, if_pos rfl]
    · rw [request_setRequest, if_pos rfl]
  · exact ⟨.of_same (.refl s'), hnone, rfl, fun _ => rfl, hstamped⟩
  · exact ⟨.setManager rest, hnone, rfl, fun _ => alloc_setManager rest,
      stamped_setLayer hstamped (hstamped d)⟩

theorem Taken.validateLoad (h : Taken cfg s s' r) : Taken cfg s (s'.validateLoad cfg d) r := by
  have hsame : SameHold s' (s'.validateLoad cfg d) := .validateLoad
  refine ⟨h.touches.trans (.of_same hsame), ?_, ?_, fun d' => ?_, ?_⟩
  · rw [hsame.request, h.ioSlice]
  · rw [hsame.request, h.useFlag]
  · rw [hsame.alloc, h.alloc]
  · rw [DevicePool.validateLoad]
    split_ifs
    · exact stamped_setLayer h.stamped (h.stamped d)
    · exact h.stamped

/-- The request is dropped with what it had in hand. -/
theorem kept_dropped (htaken : Taken cfg s s' r) (h : Sound cfg s)
    (hused : (s.request r).useFlag = true) (hnone : ∀ d', alloc s d' r = none) :
    Kept cfg s (.inferenceRequest d r) s' [] :=
  .of_touches h rfl htaken.touches hused htaken.useFlag
    (fun d' _ => (htaken.alloc d').trans (hnone d')) htaken.stamped (Or.inr rfl) (by simp)

/-- The slice is entered for the device. -/
theorem kept_entered (htaken : Taken cfg s s' r) (h : Sound cfg s)
    (hused : (s.request r).useFlag = true) (hnone : ∀ d', alloc s d' r = none)
    (htype : (s.taskLayers d).type = .acc) (x : NpuMemoryCacheSlice) :
    Kept cfg s (.inferenceRequest d r) (s'.enter cfg d r x) [.input d r] := by
  have htouches : Touches s (s'.enter cfg d r x) r := htaken.touches.trans (.enter x)
  refine .of_touches h rfl htouches hused htaken.useFlag (fun d' hstd => ?_) ?_ (Or.inl rfl)
    (List.forall_mem_singleton.mpr ⟨(htouches.type d).trans htype, htaken.ioSlice, fun d' hd => ?_⟩)
  · rw [alloc_enter, if_neg, htaken.alloc, hnone]
    rintro ⟨rfl, -⟩
    rw [htype] at hstd
    cases hstd
  · refine stamped_setLayer htaken.stamped fun r' acc hacc => ?_
    simp only [SortedMap.find?_insert] at hacc
    split_ifs at hacc with hr
    · exact Or.inl (hr ▸ (Option.some.inj hacc).symm)
    · exact htaken.stamped d r' acc hacc
  · rw [alloc_enter, if_neg fun hc => hd hc.1, htaken.alloc, hnone]

theorem kept_inferenceRequestACC (h : Sound cfg s) (hhas : Has cfg s (.inferenceRequest d r))
    (hused : (s.request r).useFlag = true) (htype : (s.taskLayers d).type = .acc)
    (hexec : s.inferenceRequestACC cfg e d r = some (s', new)) :
    Kept cfg s (.inferenceRequest d r) s' new := by
  rw [inferenceRequestACC] at hexec
  by_cases hconfig :
      (s.taskLayers d).tasks.taskStaticConfigs.contains (s.request r).task.id = false
  · rw [if_pos hconfig] at hexec
    cases hexec
  rw [if_neg hconfig] at hexec
  cases hcache : s.cacheSlice e d r with
  | none =>
    rw [hcache] at hexec
    cases hexec
    exact .of_same h (.refl s) h.stamped (Or.inl rfl) (List.forall_mem_singleton.mpr hhas)
  | some p =>
    obtain ⟨x, s₁⟩ := p
    rw [hcache] at hexec
    have htaken := (taken_cacheSlice h.stamped hcache).validateLoad (d := d)
    simp only at hexec
    split_ifs at hexec with hvalid hlate <;> cases hexec
    · exact kept_dropped htaken h hused hhas.2
    · exact kept_entered htaken h hused hhas.2 htype x

/-- A device of the other kind has no slices, so that the request has none. -/
theorem kept_inferenceRequestStd (h : Sound cfg s) (hhas : Has cfg s (.inferenceRequest d r))
    (htype : (s.taskLayers d).type = .std) :
    Kept cfg s (.inferenceRequest d r) s (if e.sent then [.running d ⟨r, cfg.pid⟩] else []) := by
  obtain ⟨hio, hnone⟩ := hhas
  have hslice : (s.request r).ioSlice = none := by
    cases hr : (s.request r).ioSlice with
    | none => rfl
    | some p =>
      rw [(hio p hr).2] at htype
      cases htype
  split_ifs
  · refine .of_same h (.refl s) h.stamped (Or.inl ?_) (List.forall_mem_singleton.mpr ?_)
    · simp [lives, Work.life]
    · exact ⟨Or.inl rfl, fun _ => ⟨hslice, fun d' _ => hnone d'⟩⟩
  · exact .of_same h (.refl s) h.stamped (Or.inr rfl) (by simp)

theorem kept_inferenceRequest (h : Sound cfg s) (hhas : Has cfg s (.inferenceRequest d r))
    (hused : (s.request r).useFlag = true)
    (hexec : s.inferenceRequest cfg e d r = some (s', new)) :
    Kept cfg s (.inferenceRequest d r) s' new := by
  rw [DevicePool.inferenceRequest] at hexec
  by_cases hthrows : e.throws = true
  · rw [if_pos hthrows] at hexec
    cases hexec
    exact .of_same h (.refl s) h.stamped (Or.inr rfl) (by simp)
  rw [if_neg hthrows] at hexec
  cases htype : (s.taskLayers d).type with
  | std =>
    simp only [htype, Option.some.injEq, Prod.mk.injEq] at hexec
    obtain ⟨rfl, rfl⟩ := hexec
    exact kept_inferenceRequestStd h hhas htype
  | acc =>
    simp only [htype] at hexec
    exact kept_inferenceRequestACC h hhas hused htype hexec

theorem kept_input (h : Sound cfg s) (hpid : cfg.pid ≠ 0) (hhas : Has cfg s (.input d r))
    (hexec : s.inputHandler cfg e d r = some (s', new)) : Kept cfg s (.input d r) s' new := by
  obtain ⟨htype, hon⟩ := hhas
  obtain ⟨hstamped, hacc⟩ := stamped_peek (r := r) (h.stamped d)
  have hpeek : SameHold s (s.setLayer d ((s.taskLayers d).peekInference r).1) := .peekInference
  have hstamped' := stamped_setLayer (d := d) h.stamped hstamped
  simp only [inputHandler] at hexec
  split_ifs at hexec
  · cases hexec
    exact .of_same h hpeek hstamped' (Or.inr rfl) (by simp)
  · cases hexec
    exact .of_same h (hpeek.trans .block)
      (stamped_setLayer hstamped' (hstamped' d)) (Or.inr rfl) (by simp)
  · cases hexec
    rcases hacc with heq | heq
    · refine .of_same h hpeek hstamped' (Or.inl ?_) ?_
      · simp [Pipeline.lives, Work.life, heq]
      · simpa [Has, heq] using ⟨htype, hon⟩
    · -- the entry of the request was gone
      refine .of_same h hpeek hstamped' (Or.inr ?_) ?_
      · simp [Pipeline.lives, Work.life, heq, hpid.symm]
      · simpa [Has, heq, hpid.symm] using htype

theorem kept_handleInferenceAcc {acc : RequestAcc} (h : Sound cfg s)
    (hhas : Has cfg s (.handleInferenceAcc d acc))
    (hexec : s.handleInferenceAcc cfg e d acc = (s', new)) :
    Kept cfg s (.handleInferenceAcc d acc) s' new := by
  rw [DevicePool.handleInferenceAcc] at hexec
  split_ifs at hexec <;> obtain ⟨rfl, rfl⟩ := Prod.mk.inj hexec
  · exact .of_same h (.refl s) h.stamped (Or.inr rfl) (by simp)
  · refine .of_same h (.refl s) h.stamped (Or.inl ?_) ?_
    · rw [lives_cons]
      exact List.append_nil _
    · simpa [Has] using ⟨Or.inr hhas.1, hhas.2⟩
  · exact .of_same h (.refl s) h.stamped (Or.inr rfl) (by simp)
  · refine .of_same h (.refl s) h.stamped (Or.inl ?_) ?_
    · rw [lives_cons]
      exact List.append_nil _
    · simpa [Has] using hhas

theorem kept_running {acc : RequestAcc} (h : Sound cfg s) (hhas : Has cfg s (.running d acc))
    (hexec : s.receive cfg e d acc = some (s', new)) : Kept cfg s (.running d acc) s' new := by
  obtain ⟨hkind, hon⟩ := hhas
  have hagain : lives cfg [(.running d acc : Work n)] =
      (Work.life cfg (.running d acc : Work n)).toList := by
    rw [lives_cons]
    exact List.append_nil _
  rw [receive] at hexec
  cases htype : (s.taskLayers d).type with
  | std =>
    have hpid : acc.procId = cfg.pid := hkind.resolve_right fun hacc => by
      rw [htype] at hacc
      cases hacc
    simp only [htype] at hexec
    split_ifs at hexec
    · cases hexec
      exact .of_same h (.refl s) h.stamped (Or.inl hagain) (by simpa [Has] using ⟨hkind, hon⟩)
    · cases hexec
      refine .of_same h .callBack (stamped_setLayer h.stamped (h.stamped d)) (Or.inl ?_) ?_
      · simp [lives, Work.life, hpid]
      · intro w' hw'
        rw [List.mem_singleton.mp hw']
        refine ⟨(hon hpid).1, fun d' halloc => absurd ?_ halloc⟩
        by_cases hd : d' = d
        · rw [hd]
          exact h.std d _ htype
        · exact (hon hpid).2 d' hd
  | acc =>
    simp only [htype] at hexec
    split_ifs at hexec
    · cases hexec
      exact .of_same h (.refl s) h.stamped (Or.inl hagain) (by simpa [Has] using hon)
    · cases hexec
      exact .of_same h .block (stamped_setLayer h.stamped (h.stamped d)) (Or.inr rfl) (by simp)

theorem kept_output {response : Response} (h : Sound cfg s)
    (hhas : Has cfg s (.output d response))
    (hused : response.procId = cfg.pid → (s.request response.reqId).useFlag = true)
    (hexec : s.outputHandler cfg e d response = some (s', new)) :
    Kept cfg s (.output d response) s' new := by
  rw [outputHandler] at hexec
  by_cases hignored : response.procId = 0 ∨ response.procId ≠ cfg.pid
  · rw [if_pos hignored] at hexec
    cases hexec
    exact .of_same h (.refl s) h.stamped (Or.inr rfl) (by simp)
  rw [if_neg hignored] at hexec
  have hpid : response.procId = cfg.pid := not_not.mp (not_or.mp hignored).2
  have hon : OnDevice s d response.reqId := hhas hpid
  have hlife : Work.life cfg (.output d response : Work n) = some response.reqId := if_pos hpid
  have hpeek : SameHold s (s.setLayer d ((s.taskLayers d).peekInference response.reqId).1) :=
    .peekInference
  -- the state in which the device has been noted
  obtain ⟨s₁, hs₁⟩ : ∃ s₁, s₁ = (s.setLayer d
    ((s.taskLayers d).peekInference response.reqId).1).setRequest response.reqId
      { s.request response.reqId with processedDevId := some d } := ⟨_, rfl⟩
  have hreq : s₁.request response.reqId =
      { s.request response.reqId with processedDevId := some d } := by
    rw [hs₁, request_setRequest, if_pos rfl]
  have htouches : Touches s s₁ response.reqId := by
    rw [hs₁]
    exact (Touches.of_same hpeek).trans (.setRequest _)
  have halloc : ∀ d', alloc s₁ d' response.reqId = alloc s d' response.reqId := fun d' => by
    rw [hs₁]
    exact hpeek.alloc d' _
  have hstamped : ∀ d', Stamped cfg (s₁.taskLayers d') := by
    rw [hs₁]
    exact stamped_setLayer h.stamped (stamped_peek (h.stamped d)).1
  have hkept : ∀ {s' : DevicePool n}, SameHold s₁ s' → (∀ d', Stamped cfg (s'.taskLayers d')) →
      new = [] ∨ new = [.nfhOutput d response.reqId, .eraseOngoing d response.reqId] →
      Kept cfg s (.output d response) s' new := fun {s'} hsame hstamped' hnew => by
    refine .of_touches h hlife (htouches.trans (.of_same hsame)) (hused hpid) ?_ (fun d' hstd => ?_)
      hstamped' ?_ fun w' hw' => ?_
    · rw [hsame.request, hreq]
    · rw [hsame.alloc, halloc]
      exact h.std d' _ hstd
    · rcases hnew with rfl | rfl
      · exact Or.inr rfl
      · exact Or.inl (by rw [hlife]; rfl)
    · rcases hnew with rfl | rfl
      · cases hw'
      rcases List.mem_cons.mp hw' with rfl | hw'
      · refine ⟨⟨?_, fun d' hd => ?_⟩, ?_⟩
        · rw [hsame.request, hreq]
          exact hon.1
        · rw [hsame.alloc, halloc]
          exact hon.2 d' hd
        · rw [hsame.request, hreq]
      · rw [List.mem_singleton.mp hw']
        trivial
  simp only [← hs₁] at hexec
  split_ifs at hexec
  · cases hexec
    exact hkept (.refl _) hstamped (Or.inl rfl)
  · cases hexec
    exact hkept .block (stamped_setLayer hstamped (hstamped d)) (Or.inl rfl)
  · cases hexec
    exact hkept .callBack (stamped_setLayer hstamped (hstamped d)) (Or.inl rfl)
  · cases hexec
    exact hkept .callBack (stamped_setLayer hstamped (hstamped d)) (Or.inr rfl)

theorem kept_eraseOngoing (h : Sound cfg s) :
    Kept cfg s (.eraseOngoing d r) (s.eraseOngoing d r) [] := by
  refine .of_same h .eraseOngoing (stamped_setLayer h.stamped fun r' acc hacc => ?_) (Or.inr rfl)
    (by simp)
  simp only [SortedMap.find?_erase] at hacc
  split_ifs at hacc
  exact h.stamped d r' acc hacc

theorem kept_nfhOutput (h : Sound cfg s) (hhas : Has cfg s (.nfhOutput d r))
    (hexec : s.handleOutput e r = (s', new)) : Kept cfg s (.nfhOutput d r) s' new := by
  obtain ⟨hon, hdevice⟩ := hhas
  rw [DevicePool.handleOutput] at hexec
  split_ifs at hexec <;> obtain ⟨rfl, rfl⟩ := Prod.mk.inj hexec
  · exact .of_same h (.refl s) h.stamped (Or.inr rfl) (by simp)
  · refine .of_same h (.refl s) h.stamped (Or.inl rfl) (List.forall_mem_singleton.mpr ?_)
    refine ⟨hon.1, fun d' halloc => ?_⟩
    by_cases hd : d' = d
    · rw [hdevice, hd]
    · exact absurd (hon.2 d' hd) halloc

/-! ### The release -/

/-- `releaseBuffers` has given the slice back. -/
def giveBack (s : DevicePool n) (r : ℕ) : DevicePool n :=
  match (s.request r).processedDevId with
  | some d => s.setLayer d ((s.taskLayers d).releaseInferenceCache r)
  | none => s

theorem reset_eq (h : (s.request r).bufferReleased = false) : s.reset r =
    ((giveBack s r).setRequest r { s.request r with bufferReleased := true }).setRequest r
      { s.request r with bufferReleased := true, useFlag := false } := by
  have hrelease : s.releaseBuffers r =
      (giveBack s r).setRequest r { s.request r with bufferReleased := true } := by
    unfold releaseBuffers giveBack
    exact if_neg (Bool.eq_false_iff.mp h)
  rw [reset, hrelease, request_setRequest, if_pos rfl]

theorem giveBack_touches : Touches s (giveBack s r) r := by
  rw [giveBack]
  split
  · exact .release
  · exact .of_same (.refl s)

theorem stamped_giveBack (h : ∀ d, Stamped cfg (s.taskLayers d)) (d : Fin n) :
    Stamped cfg ((giveBack s r).taskLayers d) := by
  rw [giveBack]
  split
  · next d' _ =>
    refine stamped_setLayer h ?_ d
    rw [TaskLayer.releaseInferenceCache]
    split
    · exact h d'
    · rw [TaskLayer.deallocateNpuBuf]
      split <;> exact h d'
  · exact h d

/-- The request that is completed has no allocation left. -/
theorem alloc_giveBack (h : ∀ d, alloc s d r ≠ none → (s.request r).processedDevId = some d)
    (d : Fin n) : alloc (giveBack s r) d r = none := by
  by_contra hne
  rw [giveBack] at hne
  split at hne
  · next d' hd' =>
    rw [alloc_release] at hne
    split_ifs at hne with hc
    · exact hne rfl
    · refine hc ⟨?_, rfl⟩
      have hd := h d hne
      rw [hd'] at hd
      exact (Option.some.inj hd).symm
  · next hnone =>
    have hd := h d hne
    rw [hnone] at hd
    cases hd

theorem kept_completed (h : Sound cfg s) (hhas : Has cfg s (.completed r))
    (hflag : (s.request r).bufferReleased = false) :
    Kept cfg s (.completed r) (s.reset r) [.cleared r] := by
  obtain ⟨hslice, hdevice⟩ := hhas
  have htouches : Touches s (s.reset r) r := by
    rw [reset_eq hflag]
    exact (giveBack_touches.trans (.setRequest _)).trans (.setRequest _)
  have hreq : (s.reset r).request r = { s.request r with bufferReleased := true, useFlag := false } := by
    rw [reset_eq hflag, request_setRequest, if_pos rfl]
  have halloc : ∀ d, alloc (s.reset r) d r = none := fun d => by
    rw [reset_eq hflag]
    exact alloc_giveBack hdevice d
  refine ⟨⟨fun r' hr' => ?_, fun d r' htype => ?_, ?_⟩,
    fun r' hr' => htouches.others r' fun heq => hr' (by rw [heq]; rfl), htouches.type, Or.inr rfl,
    by simp [lives, Work.life], List.forall_mem_singleton.mpr trivial⟩
  · by_cases hr : r' = r
    · rw [hr]
      exact ⟨by rw [hreq]; exact hslice, halloc⟩
    · have hsame := htouches.others r' hr
      have hidle := h.idle r' (hsame.useFlag.symm.trans hr')
      exact ⟨hsame.ioSlice.trans hidle.1, fun d => (hsame.alloc d).trans (hidle.2 d)⟩
  · by_cases hr : r' = r
    · rw [hr]
      exact halloc d
    · rw [(htouches.others r' hr).alloc]
      rw [htouches.type] at htype
      exact h.std d r' htype
  · rw [reset_eq hflag]
    exact stamped_giveBack h.stamped

theorem kept_cleared (h : Sound cfg s) :
    Kept cfg s (.cleared r) (s.clearReleased r) [] := by
  have hsame : ∀ r', SameRequest s (s.clearReleased r) r' := fun r' => by
    by_cases hr : r' = r
    · have hreq : (s.clearReleased r).request r' = { s.request r with bufferReleased := false } := by
        rw [clearReleased, request_setRequest, if_pos hr]
      exact ⟨by rw [hreq, hr], by rw [hreq, hr], by rw [hreq, hr], fun _ => rfl⟩
    · exact (Touches.setRequest _).others r' hr
  refine ⟨⟨fun r' hr' => ?_, h.std, h.stamped⟩, fun r' _ => hsame r', fun _ => rfl, Or.inr rfl,
    by simp [lives], by simp⟩
  have hidle := h.idle r' ((hsame r').useFlag.symm.trans hr')
  exact ⟨(hsame r').ioSlice.trans hidle.1, fun d => ((hsame r').alloc d).trans (hidle.2 d)⟩

/-! ### Every step -/

theorem LifeInv.exec {rest : List (Work n)} (hpid : cfg.pid ≠ 0) (h : LifeInv cfg s (w :: rest))
    (hok : SliceOrderly cfg s w e) (hexec : s.exec cfg e w = some (s', new)) :
    LifeInv cfg s' (new ++ rest) := by
  have hhas := h.has w List.mem_cons_self
  have hused : ∀ r, w.life cfg = some r → (s.request r).useFlag = true := fun r hr =>
    h.used r (by rw [lives_cons, hr]; exact List.mem_cons_self)
  refine h.step ?_
  cases w with
  | created r => exact kept_created h.sound hhas (Option.some.inj hexec)
  | picked d r => exact kept_picked h.sound hhas (hused r rfl) hok (Option.some.inj hexec)
  | nfhInput d r =>
    simp only [DevicePool.exec, DevicePool.handleInput, Option.some.injEq] at hexec
    split_ifs at hexec <;> obtain ⟨rfl, rfl⟩ := Prod.mk.inj hexec
    · exact .of_same h.sound (.refl s) h.sound.stamped (Or.inr rfl) (by simp)
    · exact .of_same h.sound (.refl s) h.sound.stamped (Or.inl rfl)
        (List.forall_mem_singleton.mpr hhas)
  | inferenceRequest d r => exact kept_inferenceRequest h.sound hhas (hused r rfl) hexec
  | input d r => exact kept_input h.sound hpid hhas hexec
  | handleInferenceAcc d acc => exact kept_handleInferenceAcc h.sound hhas (Option.some.inj hexec)
  | running d acc => exact kept_running h.sound hhas hexec
  | output d response =>
    exact kept_output h.sound hhas (fun heq => hused _ (if_pos heq)) hexec
  | eraseOngoing d r =>
    obtain ⟨rfl, rfl⟩ := Prod.mk.inj (Option.some.inj hexec)
    exact kept_eraseOngoing h.sound
  | nfhOutput d r => exact kept_nfhOutput h.sound hhas (Option.some.inj hexec)
  | completed r =>
    obtain ⟨rfl, rfl⟩ := Prod.mk.inj (Option.some.inj hexec)
    exact kept_completed h.sound hhas hok
  | cleared r =>
    obtain ⟨rfl, rfl⟩ := Prod.mk.inj (Option.some.inj hexec)
    exact kept_cleared h.sound

theorem LifeInv.arrive {a : Arrival n} (h : LifeInv cfg s work)
    (harrive : s.arrive a = some (s', new)) : LifeInv cfg s' (new ++ work) := by
  cases a with
  | create r task =>
    simp only [DevicePool.arrive] at harrive
    split_ifs at harrive with hflag
    obtain ⟨rfl, rfl⟩ := Prod.mk.inj (Option.some.inj harrive)
    rw [Bool.not_eq_true] at hflag
    -- the object is not on its way
    have hfresh : r ∉ lives cfg work := fun hr => by
      rw [h.used r hr] at hflag
      cases hflag
    have hreq : ∀ {req : Request n}, (s.setRequest r req).request r = req := fun {req} => by
      rw [request_setRequest, if_pos rfl]
    have htouches : ∀ req : Request n, Touches s (s.setRequest r req) r := .setRequest
    refine ⟨h.sound.touched (htouches _) (by rw [hreq]) (fun d hstd => h.sound.std d r hstd)
      h.sound.stamped, List.nodup_cons.mpr ⟨hfresh, h.nodup⟩, fun r' hr' => ?_, fun w hw => ?_⟩
    · rcases List.mem_cons.mp hr' with rfl | hr'
      · rw [hreq]
      · have hne : r' ≠ r := fun heq => hfresh (heq ▸ hr')
        rw [((htouches _).others r' hne).useFlag]
        exact h.used r' hr'
    · rcases List.mem_cons.mp hw with rfl | hold
      · exact ⟨by rw [hreq], (h.sound.idle r hflag).2⟩
      · refine (h.has w hold).congr (fun _ => rfl) fun r' hr' => (htouches _).others r' ?_
        rintro rfl
        exact hfresh (List.mem_filterMap.mpr ⟨w, hold, hr'⟩)
  | unblock d =>
    obtain ⟨rfl, rfl⟩ := Prod.mk.inj (Option.some.inj harrive)
    have hsame : SameHold s (s.setLayer d { s.taskLayers d with blocked := false }) :=
      .setLayer rfl rfl rfl
    refine ⟨h.sound.same hsame (stamped_setLayer h.sound.stamped (h.sound.stamped d)), h.nodup,
      fun r hr => h.used r hr, fun w hw => (h.has w hw).congr hsame.type fun r _ => ?_⟩
    exact ⟨rfl, rfl, rfl, fun d' => hsame.alloc d' r⟩

end DxRt.Pipeline
