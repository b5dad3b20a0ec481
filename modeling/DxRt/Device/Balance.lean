import DxRt.Device.ServiceLedger

/-! Registration is balanced: what `RegisterTask` reserves, a failed `RegisterTask` or `Release` frees.

    The proofs follow the programs call by call. `Owes` says which block ids of a task are still
    handed out; an allocation adds one, a deallocation takes one away. What the maps of the device
    record of a task (`blockIds`) is what is owed for it. -/

namespace DxRt
open Memory HandleTable Program

/-! ### What is owed -/

/-- The record of what the layer has handed out: task and block id. -/
def note (held : List (ℤ × ℤ)) : (c : LayerCall) → c.Ans → List (ℤ × ℤ)
  | .allocateInfo taskId _ _, info =>
    if 0 < info.blockId then (taskId, info.blockId) :: held else held
  | .deAllocateInfo info, _ => held.filter fun e => decide (e.2 ≠ info.blockId)
  | .dmaWrite .., _ => held
  | .dmaRead .., _ => held

/-- The block id of an allocation that has succeeded. -/
def SharedMemoryInfo.validId (info : SharedMemoryInfo) : List ℤ :=
  if 0 < info.blockId then [info.blockId] else []

/-- What callers can tell about an allocation. -/
def Allocation (size : ℕ) (info : SharedMemoryInfo) : Prop :=
  info.blockId < 0 ∧ info.fd < 0 ∨ 0 < info.blockId ∧ (0 < size → 0 < info.size)

namespace Ledger

variable {σ : Type} {m : Component LayerCall LayerCall.Ans σ Surroundings} {pool : σ → Memory}
  {harmless : σ → LayerCall → Surroundings → Prop} {void : σ → SharedMemoryInfo → Prop}
  (L : Ledger m pool harmless void)

/-- The layer has handed out the block ids `ids` for the task `t`, and `others` for other tasks. -/
structure Owes (base : Memory) (t : ℤ) (ids : List ℤ) (others : List Holding)
    (s : σ × List (ℤ × ℤ)) : Prop where
  holds : ∃ own : List Holding, (own.map Holding.blockId).Perm ids ∧ (∀ h ∈ own, h.taskId = t) ∧
    L.Holds base (own ++ others) s.1 ∧
    ∀ e, e ∈ s.2 ↔ e ∈ (own ++ others).map fun h => (h.taskId, h.blockId)
  others : ∀ h ∈ others, h.taskId ≠ t

variable {L} {base : Memory} {t : ℤ} {ids ids' : List ℤ} {others : List Holding}
  {s : σ × List (ℤ × ℤ)} {ok : σ × List (ℤ × ℤ) → LayerCall → Surroundings → Prop}

theorem Owes.perm (h : L.Owes base t ids others s) (hp : ids.Perm ids') :
    L.Owes base t ids' others s := by
  obtain ⟨⟨own, hids, htask, hs, hnote⟩, hothers⟩ := h
  exact ⟨⟨own, hids.trans hp, htask, hs, hnote⟩, hothers⟩

/-- An allocation adds its block id to what is owed, if it succeeds. -/
theorem Owes.allocate (h : L.Owes base t ids others s) {type : MemoryType} {size : ℕ}
    {w : Surroundings} (hok : harmless s.1 (.allocateInfo t type size) w) {s' : σ × List (ℤ × ℤ)}
    {info : SharedMemoryInfo}
    (hstep : (m.withHistory note).step s (.allocateInfo t type size) w = (s', info)) :
    Allocation size info ∧ L.Owes base t (info.validId ++ ids) others s' := by
  obtain ⟨⟨own, hids, htask, hs, hnote⟩, hothers⟩ := h
  obtain ⟨s₁, info₁, hm⟩ : ∃ s₁ info₁, m.step s.1 (.allocateInfo t type size) w = (s₁, info₁) :=
    ⟨_, _, rfl⟩
  have hs' : s' = (s₁, note s.2 (.allocateInfo t type size) info₁) ∧ info = info₁ := by
    simp only [Component.withHistory, hm, Prod.mk.injEq] at hstep
    exact ⟨hstep.1.symm, hstep.2.symm⟩
  obtain ⟨rfl, rfl⟩ := hs'
  rcases L.allocate hs hok hm with ⟨hneg, hfd, hs₁⟩ | ⟨hsize, new, rfl, hid, hs₁⟩
  · have hnot : ¬ 0 < info.blockId := by omega
    refine ⟨Or.inl ⟨hneg, hfd⟩, ⟨own, ?_, htask, hs₁, ?_⟩, hothers⟩
    · rw [SharedMemoryInfo.validId, if_neg hnot]
      exact hids
    · simpa only [note, if_neg hnot] using hnote
  · have hpos : 0 < info.blockId := hid ▸ new.pos
    refine ⟨Or.inr ⟨hpos, hsize⟩, ⟨new :: own, ?_, ?_, hs₁, ?_⟩, hothers⟩
    · rw [SharedMemoryInfo.validId, if_pos hpos, ← hid]
      exact hids.cons _
    · intro h hh
      rcases List.mem_cons.mp hh with rfl | hh
      · rfl
      · exact htask h hh
    · intro e
      simp only [note, if_pos hpos, List.cons_append, List.map_cons, List.mem_cons, hnote, hid]

/-- A deallocation with an owed block id takes it off. -/
theorem Owes.deallocate (h : L.Owes base t ids others s) {info : SharedMemoryInfo}
    (hmem : info.blockId ∈ ids) {w : Surroundings} (hok : harmless s.1 (.deAllocateInfo info) w) :
    L.Owes base t (ids.erase info.blockId) others
      ((m.withHistory note).step s (.deAllocateInfo info) w).1 := by
  obtain ⟨⟨own, hids, htask, hs, hnote⟩, hothers⟩ := h
  obtain ⟨h, hh, hid⟩ := List.mem_map.mp (hids.mem_iff.mpr hmem)
  obtain ⟨l, r, rfl⟩ := List.append_of_mem hh
  have hp : (l ++ h :: r ++ others).Perm (h :: (l ++ r ++ others)) :=
    List.perm_middle.append_right others
  have hs' := L.perm hs hp
  have hnodup := List.nodup_cons.mp (L.nodup hs')
  refine ⟨⟨l ++ r, ?_, fun h' hh' => htask h' ?_, L.deallocate hs' hid.symm hok, fun e => ?_⟩,
    hothers⟩
  · rw [← hid]
    have hids' := ((@List.perm_middle _ h l r).map Holding.blockId).symm.trans
      hids
    simpa using hids'.erase h.blockId
  · rcases List.mem_append.mp hh' with hl | hr
    · exact List.mem_append_left _ hl
    · exact List.mem_append_right _ (List.mem_cons_of_mem _ hr)
  · -- the record loses the one entry with this block id
    change e ∈ s.2.filter _ ↔ _
    rw [List.mem_filter, hnote, (hp.map _).mem_iff, decide_eq_true_eq, ← hid, List.map_cons,
      List.mem_cons]
    constructor
    · rintro ⟨rfl | he, hne⟩
      · exact absurd rfl hne
      · exact he
    · intro he
      refine ⟨Or.inr he, fun heq => hnodup.1 ?_⟩
      obtain ⟨h', hh', rfl⟩ := List.mem_map.mp he
      rw [← heq]
      exact List.mem_map_of_mem hh'

/-- A deallocation that meets nothing leaves what is owed. -/
theorem Owes.ignore (h : L.Owes base t ids others s) {info : SharedMemoryInfo}
    (hvoid : void s.1 info) {w : Surroundings} :
    L.Owes base t ids others ((m.withHistory note).step s (.deAllocateInfo info) w).1 := by
  obtain ⟨⟨own, hids, htask, hs, hnote⟩, hothers⟩ := h
  have hsame : (m.step s.1 (.deAllocateInfo info) w).1 = s.1 := L.ignore hs hvoid
  refine ⟨⟨own, hids, htask, ?_, fun e => ?_⟩, hothers⟩
  · change L.Holds base (own ++ others) (m.step s.1 (.deAllocateInfo info) w).1
    rw [hsame]
    exact hs
  · change e ∈ s.2.filter _ ↔ _
    rw [List.mem_filter, hnote, decide_eq_true_eq, and_iff_left_iff_imp]
    intro he
    obtain ⟨h, hh, rfl⟩ := List.mem_map.mp he
    exact L.unheld hs hvoid h hh

/-- Nothing is recorded for a task that is owed nothing. -/
theorem Owes.mem_record (h : L.Owes base t ids others s) {id : ℤ} (hmem : (t, id) ∈ s.2) :
    id ∈ ids := by
  obtain ⟨⟨own, hids, _, _, hnote⟩, hothers⟩ := h
  obtain ⟨h, hh, heq⟩ := List.mem_map.mp ((hnote _).mp hmem)
  obtain ⟨ht, rfl⟩ := Prod.mk.inj heq
  rcases List.mem_append.mp hh with hh | hh
  · exact hids.mem_iff.mp (List.mem_map_of_mem hh)
  · exact absurd ht (hothers h hh)

end Ledger

/-! ### What the environment must not do -/

section Conditions
variable {σ : Type} (harmless : σ → LayerCall → Surroundings → Prop)
  (void : σ → SharedMemoryInfo → Prop)

/-- During `RegisterTask`: every call is harmless, and the write of the PPU binary does not throw. -/
def registerOk (s : σ × List (ℤ × ℤ)) (c : LayerCall) (w : Surroundings) : Prop :=
  harmless s.1 c w ∧
    match c with
    | .dmaWrite .modelPpuBinary _ => w.dma ≠ .throws
    | _ => True

/-- During `Release(t)`: every call is harmless, and a deallocation that is not given a block id
    handed out for the task meets nothing. -/
def releaseOk (t : ℤ) (s : σ × List (ℤ × ℤ)) (c : LayerCall) (w : Surroundings) : Prop :=
  harmless s.1 c w ∧
    match c with
    | .deAllocateInfo info => (t, info.blockId) ∈ s.2 ∨ void s.1 info
    | _ => True

instance [∀ s c w, Decidable (harmless s c w)] (s : σ × List (ℤ × ℤ)) :
    ∀ c w, Decidable (registerOk harmless s c w)
  | .dmaWrite .modelPpuBinary _, _ => inferInstanceAs (Decidable (_ ∧ _ ≠ Dma.throws))
  | .dmaWrite .normal _, _ | .dmaWrite .modelRmap _, _ | .dmaWrite .modelWeight _, _
  | .dmaWrite .inputOutput _, _ | .allocateInfo .., _ | .deAllocateInfo _, _ | .dmaRead .., _ =>
    inferInstanceAs (Decidable (_ ∧ True))

instance [∀ s c w, Decidable (harmless s c w)] [∀ s info, Decidable (void s info)] (t : ℤ)
    (s : σ × List (ℤ × ℤ)) : ∀ c w, Decidable (releaseOk harmless void t s c w)
  | .deAllocateInfo _, _ => inferInstanceAs (Decidable (_ ∧ (_ ∈ _ ∨ _)))
  | .allocateInfo .., _ | .dmaWrite .., _ | .dmaRead .., _ => inferInstanceAs (Decidable (_ ∧ True))

end Conditions

/-! ### Rules for the calls -/

namespace Ledger
open LayerProgram

variable {σ : Type} {m : Component LayerCall LayerCall.Ans σ Surroundings} {pool : σ → Memory}
  {harmless : σ → LayerCall → Surroundings → Prop} {void : σ → SharedMemoryInfo → Prop}
  {L : Ledger m pool harmless void} {base : Memory} {t : ℤ} {ids : List ℤ} {others : List Holding}
  {s : σ × List (ℤ × ℤ)} {info : SharedMemoryInfo}

theorem Owes.wp_allocateInfo (h : L.Owes base t ids others s) {type : MemoryType} {size : ℕ}
    {Q : SharedMemoryInfo → σ × List (ℤ × ℤ) → Prop}
    (hQ : ∀ info s', Allocation size info → L.Owes base t (info.validId ++ ids) others s' →
      Q info s') :
    (allocateInfo t type size).wp (m.withHistory note) (registerOk harmless) Q s := by
  intro w hok
  obtain ⟨halloc, hs'⟩ := h.allocate hok.1 rfl
  exact hQ _ _ halloc hs'

theorem Owes.wp_deAllocateInfo (h : L.Owes base t ids others s) (hmem : info.blockId ∈ ids)
    {Q : Unit → σ × List (ℤ × ℤ) → Prop}
    (hQ : ∀ s', L.Owes base t (ids.erase info.blockId) others s' → Q () s') :
    (deAllocateInfo info).wp (m.withHistory note) (registerOk harmless) Q s :=
  fun _ hok => hQ _ (h.deallocate hmem hok.1)

theorem Owes.wp_deAllocateValid (h : L.Owes base t (info.validId ++ ids) others s)
    {Q : Unit → σ × List (ℤ × ℤ) → Prop} (hQ : ∀ s', L.Owes base t ids others s' → Q () s') :
    (deAllocateValid info).wp (m.withHistory note) (registerOk harmless) Q s := by
  rw [deAllocateValid]
  rw [SharedMemoryInfo.validId] at h
  split_ifs at h ⊢
  · refine h.wp_deAllocateInfo (List.mem_cons_self ..) fun s' hs' => hQ s' ?_
    simpa using hs'
  · exact hQ s h

/-- In `Release(t)` a deallocation takes off what is owed under its block id, if anything. -/
theorem Owes.wp_release (h : L.Owes base t ids others s)
    {Q : Unit → σ × List (ℤ × ℤ) → Prop}
    (hQ : ∀ s', L.Owes base t (ids.erase info.blockId) others s' → Q () s') :
    (deAllocateInfo info).wp (m.withHistory note) (releaseOk harmless void t) Q s := by
  intro w hok
  by_cases hmem : info.blockId ∈ ids
  · exact hQ _ (h.deallocate hmem hok.1)
  · have hvoid := hok.2.resolve_left fun hrec => hmem (h.mem_record hrec)
    refine hQ _ ?_
    rw [List.erase_of_not_mem hmem]
    exact h.ignore hvoid

/-- A write changes nothing; that of the PPU binary does not throw. -/
theorem Owes.wp_dmaWrite (h : L.Owes base t ids others s) {type : MemoryType}
    {Q : Option Exit → σ × List (ℤ × ℤ) → Prop}
    (hQ : ∀ exit s', exit ≠ some .failed → (type = .modelPpuBinary → exit ≠ some .threw) →
      L.Owes base t ids others s' → Q exit s') :
    (dmaWrite type info).wp (m.withHistory note) (registerOk harmless) Q s := by
  rw [dmaWrite, wp_bind]
  intro w hok
  have hstep : (m.withHistory note).step s (.dmaWrite type info) w = (s, w.dma) := by
    simp only [Component.withHistory, L.write, note]
  rw [hstep]
  have hthrows : type = .modelPpuBinary → w.dma ≠ .throws := by
    rintro rfl
    exact hok.2
  cases hdma : w.dma with
  | throws => exact hQ _ _ nofun (fun htype => absurd hdma (hthrows htype)) h
  | returns ret same =>
    refine hQ _ _ ?_ (fun _ => ?_) h <;> split_ifs <;> nofun

theorem Owes.wp_verify (h : L.Owes base t ids others s) {type : MemoryType}
    {Q : Option ℕ → σ × List (ℤ × ℤ) → Prop}
    (hQ : ∀ r s', L.Owes base t ids others s' → Q r s') :
    (verify type info).wp (m.withHistory note) (registerOk harmless) Q s := by
  rw [verify, wp_bind]
  intro w hok
  have hstep : (m.withHistory note).step s (.dmaRead type info) w = (s, w.dma) := by
    simp only [Component.withHistory, L.read, note]
  rw [hstep]
  cases w.dma with
  | throws => exact hQ _ _ h
  | returns ret same => exact hQ _ _ h

end Ledger

/-! ### What the device records of a task -/

namespace AccDeviceTaskLayer

/-- The two devices differ in the entries of one task only. -/
structure Frame (t : ℤ) (dev dev' : AccDeviceTaskLayer) : Prop where
  memInfos : ∀ t', t' ≠ t → dev'.modelMemoryInfos.find? t' = dev.modelMemoryInfos.find? t'
  caches : ∀ t', t' ≠ t → dev'.taskNpuMemoryCaches.find? t' = dev.taskNpuMemoryCaches.find? t'
  offsets : ∀ t', t' ≠ t → dev'.ppuBinaryOffsets.find? t' = dev.ppuBinaryOffsets.find? t'
  configs : ∀ t', t' ≠ t → dev'.taskStaticConfigs.find? t' = dev.taskStaticConfigs.find? t'

theorem Frame.refl (t : ℤ) (dev : AccDeviceTaskLayer) : Frame t dev dev :=
  ⟨fun _ _ => rfl, fun _ _ => rfl, fun _ _ => rfl, fun _ _ => rfl⟩

theorem Frame.trans {t : ℤ} {dev dev' dev'' : AccDeviceTaskLayer} (h : Frame t dev dev')
    (h' : Frame t dev' dev'') : Frame t dev dev'' where
  memInfos t' ht := (h'.memInfos t' ht).trans (h.memInfos t' ht)
  caches t' ht := (h'.caches t' ht).trans (h.caches t' ht)
  offsets t' ht := (h'.offsets t' ht).trans (h.offsets t' ht)
  configs t' ht := (h'.configs t' ht).trans (h.configs t' ht)

/-- The block ids that the maps hold for a task that is registered, or about to be. -/
def cacheIds (dev : AccDeviceTaskLayer) (t : ℤ) : List ℤ :=
  ((dev.taskNpuMemoryCaches.find? t).map fun manager => manager.npuMemoryInfo.blockId).toList

def ppuIds (dev : AccDeviceTaskLayer) (t : ℤ) : List ℤ :=
  if dev.ppuBinaryOffsets.contains t then [(dev.memInfos t).ppuMemInfo.blockId] else []

def modelIds (dev : AccDeviceTaskLayer) (t : ℤ) : List ℤ :=
  [(dev.memInfos t).rmapMemInfo.blockId, (dev.memInfos t).weightMemInfo.blockId]

def blockIds (dev : AccDeviceTaskLayer) (t : ℤ) : List ℤ :=
  dev.cacheIds t ++ dev.ppuIds t ++ dev.modelIds t

/-- The memory information of the task is there, and valid where it is used. -/
structure Recorded (dev : AccDeviceTaskLayer) (t : ℤ) : Prop where
  known : (dev.modelMemoryInfos.find? t).isSome
  rmap : 0 < (dev.memInfos t).rmapMemInfo.blockId
  weight : 0 < (dev.memInfos t).weightMemInfo.blockId
  ppu : dev.ppuBinaryOffsets.contains t = true →
    0 < (dev.memInfos t).ppuMemInfo.blockId ∧ 0 < (dev.memInfos t).ppuMemInfo.size

/-- Nothing is kept for the task that a later registration could mistake for its own. -/
structure Clear (dev : AccDeviceTaskLayer) (t : ℤ) : Prop where
  cache : dev.taskNpuMemoryCaches.find? t = none
  offset : dev.ppuBinaryOffsets.find? t = none

variable {dev dev' : AccDeviceTaskLayer} {t : ℤ}

theorem memInfos_setMemInfos (memInfos : ModelMemoryInfos) :
    (dev.setMemInfos t memInfos).memInfos t = memInfos := by
  simp [AccDeviceTaskLayer.memInfos, setMemInfos, SortedMap.find?_insert]

theorem frame_setMemInfos (memInfos : ModelMemoryInfos) :
    Frame t dev (dev.setMemInfos t memInfos) where
  memInfos t' ht := by simp [setMemInfos, SortedMap.find?_insert, ht]
  caches _ _ := rfl
  offsets _ _ := rfl
  configs _ _ := rfl

/-- For the other tasks everything is as it was. -/
theorem Frame.other {t' : ℤ} (h : Frame t dev dev') (ht : t' ≠ t) :
    dev'.blockIds t' = dev.blockIds t' ∧ (dev'.Recorded t' ↔ dev.Recorded t') ∧
      (dev'.Clear t' ↔ dev.Clear t') := by
  have hinfos : dev'.memInfos t' = dev.memInfos t' := by
    rw [AccDeviceTaskLayer.memInfos, AccDeviceTaskLayer.memInfos, h.memInfos t' ht]
  have hcontains : dev'.ppuBinaryOffsets.contains t' = dev.ppuBinaryOffsets.contains t' := by
    rw [SortedMap.contains, SortedMap.contains, h.offsets t' ht]
  refine ⟨?_, ⟨fun hr => ?_, fun hr => ?_⟩, ⟨fun hc => ?_, fun hc => ?_⟩⟩
  · rw [blockIds, blockIds, cacheIds, cacheIds, ppuIds, ppuIds, modelIds, modelIds, hinfos,
      hcontains, h.caches t' ht]
  · exact ⟨h.memInfos t' ht ▸ hr.known, hinfos ▸ hr.rmap, hinfos ▸ hr.weight,
      fun hc => hinfos ▸ hr.ppu (hcontains ▸ hc)⟩
  · exact ⟨(h.memInfos t' ht).symm ▸ hr.known, hinfos.symm ▸ hr.rmap, hinfos.symm ▸ hr.weight,
      fun hc => hinfos.symm ▸ hr.ppu (hcontains ▸ hc)⟩
  · exact ⟨h.caches t' ht ▸ hc.cache, h.offsets t' ht ▸ hc.offset⟩
  · exact ⟨(h.caches t' ht).trans hc.cache, (h.offsets t' ht).trans hc.offset⟩

end AccDeviceTaskLayer

/-! ### RegisterTask -/

namespace Ledger
open AccDeviceTaskLayer LayerProgram

variable {σ : Type} {m : Component LayerCall LayerCall.Ans σ Surroundings} {pool : σ → Memory}
  {harmless : σ → LayerCall → Surroundings → Prop} {void : σ → SharedMemoryInfo → Prop}
  {L : Ledger m pool harmless void} {base : Memory} {t : ℤ} {ids : List ℤ} {others : List Holding}
  {s : σ × List (ℤ × ℤ)} {dev : AccDeviceTaskLayer} {weight rmap : SharedMemoryInfo}

theorem validId_of_pos {info : SharedMemoryInfo} (h : 0 < info.blockId) :
    info.validId = [info.blockId] := if_pos h

theorem validId_of_not_pos {info : SharedMemoryInfo} (h : info.blockId ≤ 0) : info.validId = [] :=
  if_neg (by omega)

section Model
variable {Q : SharedMemoryInfo × SharedMemoryInfo × Bool → σ × List (ℤ × ℤ) → Prop}
  (hfail : ∀ weight rmap s', L.Owes base t [] others s' → Q (weight, rmap, false) s')
  (hok : ∀ weight rmap s', 0 < weight.blockId → 0 < rmap.blockId →
    L.Owes base t [rmap.blockId, weight.blockId] others s' → Q (weight, rmap, true) s')
include hfail hok

theorem Owes.wp_checkModel (h : L.Owes base t (rmap.validId ++ weight.validId) others s) :
    (allocateModel.checkModel weight rmap).wp (m.withHistory note) (registerOk harmless) Q s := by
  rw [allocateModel.checkModel]
  split_ifs with hrmap hweight
  · rw [validId_of_not_pos hrmap, List.nil_append, ← List.append_nil weight.validId] at h
    rw [wp_bind]
    exact h.wp_deAllocateValid fun s' hs' => hfail _ _ s' hs'
  · rw [validId_of_not_pos hweight, List.append_nil, validId_of_pos (by omega)] at h
    rw [wp_bind]
    refine h.wp_deAllocateInfo (List.mem_singleton_self _) fun s' hs' => hfail _ _ s' ?_
    simpa using hs'
  · have hrmap' : 0 < rmap.blockId := by omega
    have hweight' : 0 < weight.blockId := by omega
    rw [validId_of_pos hrmap', validId_of_pos hweight'] at h
    exact hok _ _ s hweight' hrmap' h

/-- The model blocks: both are reserved, or none is. -/
theorem Owes.wp_allocateModel (h : L.Owes base t [] others s) {model : Model} :
    (allocateModel t model).wp (m.withHistory note) (registerOk harmless) Q s := by
  rw [allocateModel, wp_bind]
  refine h.wp_allocateInfo fun weight s₁ _ h₁ => ?_
  rw [wp_bind]
  refine h₁.wp_allocateInfo fun temp s₂ _ h₂ => ?_
  rw [List.append_nil] at h₂
  split_ifs
  · rw [wp_bind]
    refine h₂.wp_allocateInfo fun rmap s₃ _ h₃ => ?_
    split_ifs with hrmap
    · -- the second rmap has failed: weight and first rmap go
      rw [validId_of_not_pos hrmap, List.nil_append] at h₃
      rw [wp_bind]
      refine (h₃.perm List.perm_append_comm).wp_deAllocateValid fun s₄ h₄ => ?_
      rw [wp_bind]
      rw [← List.append_nil temp.validId] at h₄
      exact h₄.wp_deAllocateValid fun s₅ h₅ => hfail _ _ s₅ h₅
    · rw [wp_bind]
      have hp : (rmap.validId ++ (temp.validId ++ weight.validId)).Perm
          (temp.validId ++ (rmap.validId ++ weight.validId)) := by
        rw [← List.append_assoc, ← List.append_assoc]
        exact List.perm_append_comm.append_right _
      refine (h₃.perm hp).wp_deAllocateValid fun s₄ h₄ => ?_
      exact h₄.wp_checkModel hfail hok
  · exact h₂.wp_checkModel hfail hok

end Model

/-- The writes of the model change nothing. -/
theorem Owes.wp_writeModel (h : L.Owes base t ids others s)
    {Q : Option Exit → σ × List (ℤ × ℤ) → Prop}
    (hQ : ∀ exit s', exit ≠ some .failed → L.Owes base t ids others s' → Q exit s') :
    (writeModel weight rmap).wp (m.withHistory note) (registerOk harmless) Q s := by
  rw [writeModel, wp_bind]
  refine h.wp_dmaWrite fun exit s₁ hexit _ h₁ => ?_
  cases exit with
  | some exit => exact hQ _ s₁ hexit h₁
  | none => exact h₁.wp_dmaWrite fun exit s₂ hexit _ h₂ => hQ exit s₂ hexit h₂

theorem Owes.wp_verifyModel (h : L.Owes base t ids others s) {model : Model}
    {Q : Option Exit → σ × List (ℤ × ℤ) → Prop}
    (hQ : ∀ exit s', L.Owes base t ids others s' → Q exit s') :
    (verifyModel model weight rmap).wp (m.withHistory note) (registerOk harmless) Q s := by
  rw [verifyModel]
  split_ifs
  · rw [wp_bind]
    refine h.wp_verify fun r s₁ h₁ => ?_
    cases r with
    | none => exact hQ _ s₁ h₁
    | some fails =>
      simp only [wp_bind]
      refine h₁.wp_verify fun r s₂ h₂ => ?_
      cases r with
      | none => exact hQ _ s₂ h₂
      | some fails' => exact hQ _ s₂ h₂
  · exact hQ _ s h

theorem ppuBinary_pos {task : TaskData} {ppu : List UInt8} (h : task.ppuBinary = some ppu) :
    0 < ppu.length := by
  rw [TaskData.ppuBinary] at h
  split_ifs at h
  split at h
  · split_ifs at h with hempty
    cases h
    rw [List.isEmpty_iff] at hempty
    exact List.length_pos_iff.mpr hempty
  · cases h

/-- The device once the PPU binary is written. -/
def withPpu (dev : AccDeviceTaskLayer) (t : ℤ) (info : SharedMemoryInfo) : AccDeviceTaskLayer :=
  { dev.setMemInfos t { dev.memInfos t with ppuMemInfo := info } with
    ppuBinaryOffsets := dev.ppuBinaryOffsets.insert t (info.physAddrOffset % 2 ^ 32) }

/-- The PPU binary: unless the process ends, its block is recorded or not reserved. -/
theorem Owes.wp_writePpuBinary {task : TaskData} (h : L.Owes base task.id ids others s)
    {Q : AccDeviceTaskLayer × Option Exit → σ × List (ℤ × ℤ) → Prop}
    (habort : ∀ s', Q (dev, some .aborted) s')
    (hkeep : ∀ exit s', L.Owes base task.id ids others s' → Q (dev, exit) s')
    (hdone : ∀ info s', 0 < info.blockId → 0 < info.size →
      L.Owes base task.id (info.blockId :: ids) others s' → Q (withPpu dev task.id info, none) s') :
    (writePpuBinary dev task).wp (m.withHistory note) (registerOk harmless) Q s := by
  rw [writePpuBinary]
  cases hppu : task.ppuBinary with
  | none => exact hkeep _ s h
  | some ppu =>
    simp only [wp_bind]
    refine h.wp_allocateInfo fun info s₁ halloc h₁ => ?_
    split_ifs with hid
    · rw [validId_of_not_pos hid] at h₁
      exact hkeep _ s₁ h₁
    · have hpos : 0 < info.blockId := by omega
      have hsize : 0 < info.size := by
        rcases halloc with ⟨hneg, _⟩ | ⟨_, hsize⟩
        · omega
        · exact hsize (ppuBinary_pos hppu)
      rw [validId_of_pos hpos] at h₁
      rw [wp_bind]
      refine h₁.wp_dmaWrite fun exit s₂ hfailed hthrew h₂ => ?_
      cases exit with
      | none => exact hdone info s₂ hpos hsize h₂
      | some exit =>
        cases exit with
        | failed => exact absurd rfl hfailed
        | threw => exact absurd rfl (hthrew rfl)
        | aborted => exact habort s₂

/-- The cache: the attempts before the first success leave nothing behind. -/
theorem Owes.wp_registerCache {size : ℤ} (hnone : dev.taskNpuMemoryCaches.find? t = none)
    {Q : AccDeviceTaskLayer × Bool → σ × List (ℤ × ℤ) → Prop}
    (hfail : ∀ s', L.Owes base t ids others s' → Q (dev, false) s')
    (hok : ∀ manager s', L.Owes base t (manager.npuMemoryInfo.blockId :: ids) others s' →
      Q ({ dev with taskNpuMemoryCaches := dev.taskNpuMemoryCaches.insert t manager }, true) s') :
    ∀ (count : ℕ) {s : σ × List (ℤ × ℤ)}, L.Owes base t ids others s →
      (registerCache dev t size count).wp (m.withHistory note) (registerOk harmless) Q s := by
  have hcontains : dev.taskNpuMemoryCaches.contains t = false := by
    rw [SortedMap.contains, hnone]
    rfl
  intro count
  induction count with
  | zero => exact fun h => hfail _ h
  | succ count ih =>
    intro s h
    rw [registerCache, wp_bind, registerMemoryCache, wp_bind]
    refine h.wp_allocateInfo fun info s₁ halloc h₁ => ?_
    rcases halloc with ⟨hid, hfd⟩ | ⟨hpos, _⟩
    · rw [validId_of_not_pos hid.le] at h₁
      rw [if_neg (by omega)]
      exact ih h₁
    · rw [validId_of_pos hpos] at h₁
      rw [if_pos (Or.inr hpos.le), hcontains]
      exact hok (.make size (count + 1) info) s₁ h₁

theorem frame_withPpu (info : SharedMemoryInfo) : Frame t dev (withPpu dev t info) where
  memInfos t' ht := (frame_setMemInfos _).memInfos t' ht
  caches _ _ := rfl
  offsets t' ht := by simp [withPpu, SortedMap.find?_insert, ht]
  configs _ _ := rfl

/-- With the PPU binary one more block id is recorded. -/
theorem withPpu_recorded {info : SharedMemoryInfo} (hclear : dev.Clear t) (hrec : dev.Recorded t)
    (hpos : 0 < info.blockId) (hsize : 0 < info.size) :
    (withPpu dev t info).Recorded t ∧
      (withPpu dev t info).blockIds t = info.blockId :: dev.blockIds t := by
  have hinfos : (withPpu dev t info).memInfos t = { dev.memInfos t with ppuMemInfo := info } :=
    memInfos_setMemInfos _
  have hcontains : (withPpu dev t info).ppuBinaryOffsets.contains t = true := by
    simp [withPpu, SortedMap.contains, SortedMap.find?_insert]
  have hnone : dev.ppuBinaryOffsets.contains t = false := by
    rw [SortedMap.contains, hclear.offset]
    rfl
  have hcache : (withPpu dev t info).taskNpuMemoryCaches.find? t = none := hclear.cache
  refine ⟨⟨?_, hinfos ▸ hrec.rmap, hinfos ▸ hrec.weight, fun _ => hinfos ▸ ⟨hpos, hsize⟩⟩, ?_⟩
  · simp [withPpu, setMemInfos, SortedMap.find?_insert]
  · simp [blockIds, cacheIds, ppuIds, modelIds, hinfos, hcontains, hnone, hcache, hclear.cache]

theorem frame_caches (manager : TaskNpuMemoryCacheManager) :
    Frame t dev { dev with taskNpuMemoryCaches := dev.taskNpuMemoryCaches.insert t manager } where
  memInfos _ _ := rfl
  caches t' ht := by simp [SortedMap.find?_insert, ht]
  offsets _ _ := rfl
  configs _ _ := rfl

section Try
variable {task : TaskData} {Q : AccDeviceTaskLayer × Option Exit → σ × List (ℤ × ℤ) → Prop}

theorem Owes.wp_verifyAndCache (hcache : dev.taskNpuMemoryCaches.find? task.id = none)
    (hrec : dev.Recorded task.id) (h : L.Owes base task.id (dev.blockIds task.id) others s)
    (hQ : ∀ dev' exit s', Frame task.id dev dev' → dev'.taskStaticConfigs = dev.taskStaticConfigs →
      dev'.Recorded task.id → L.Owes base task.id (dev'.blockIds task.id) others s' →
      Q (dev', exit) s') :
    (verifyAndCache dev task weight rmap).wp (m.withHistory note) (registerOk harmless) Q s := by
  rw [verifyAndCache, wp_bind]
  refine h.wp_verifyModel fun exit s₁ h₁ => ?_
  cases exit with
  | some exit => exact hQ _ _ s₁ (.refl _ _) rfl hrec h₁
  | none =>
    simp only [wp_bind]
    refine Owes.wp_registerCache hcache (fun s₂ h₂ => ?_) (fun manager s₂ h₂ => ?_) _ h₁
    · exact hQ _ _ s₂ (.refl _ _) rfl hrec h₂
    · refine hQ _ _ s₂ (frame_caches manager) rfl ⟨hrec.known, hrec.rmap, hrec.weight, hrec.ppu⟩ ?_
      have hold : dev.cacheIds task.id = [] := by
        rw [cacheIds, hcache]
        rfl
      rw [blockIds, hold] at h₂
      rw [blockIds, cacheIds, SortedMap.find?_insert, if_pos rfl]
      exact h₂

/-- The body of the `try` block: unless the process ends, what is owed is what is recorded. -/
theorem Owes.wp_tryRegister (hclear : dev.Clear task.id) (hrec : dev.Recorded task.id)
    (h : L.Owes base task.id (dev.blockIds task.id) others s)
    (habort : ∀ dev' s', Q (dev', some .aborted) s')
    (hQ : ∀ dev' exit s', Frame task.id dev dev' → dev'.taskStaticConfigs = dev.taskStaticConfigs →
      dev'.Recorded task.id → L.Owes base task.id (dev'.blockIds task.id) others s' →
      Q (dev', exit) s') :
    (tryRegister dev task weight rmap).wp (m.withHistory note) (registerOk harmless) Q s := by
  rw [tryRegister, wp_bind]
  refine h.wp_writeModel fun exit s₁ _ h₁ => ?_
  cases exit with
  | some exit => exact hQ _ _ s₁ (.refl _ _) rfl hrec h₁
  | none =>
    simp only [wp_bind]
    refine h₁.wp_writePpuBinary (fun s₂ => habort _ s₂) (fun exit s₂ h₂ => ?_)
      (fun info s₂ hpos hsize h₂ => ?_)
    · cases exit with
      | some exit => exact hQ _ _ s₂ (.refl _ _) rfl hrec h₂
      | none => exact h₂.wp_verifyAndCache hclear.cache hrec hQ
    · obtain ⟨hrec', hids⟩ := withPpu_recorded hclear hrec hpos hsize
      rw [← hids] at h₂
      exact h₂.wp_verifyAndCache hclear.cache hrec' fun dev' exit s' hframe =>
        hQ dev' exit s' ((frame_withPpu info).trans hframe)

end Try

/-- Removing the cache of a task. -/
theorem wp_unRegisterMemoryCache
    {ok : σ × List (ℤ × ℤ) → LayerCall → Surroundings → Prop}
    {Q : AccDeviceTaskLayer → σ × List (ℤ × ℤ) → Prop}
    (hnone : dev.taskNpuMemoryCaches.find? t = none → Q dev s)
    (hsome : ∀ manager, dev.taskNpuMemoryCaches.find? t = some manager →
      (deAllocateInfo manager.npuMemoryInfo).wp (m.withHistory note) ok
        (fun _ s' => Q { dev with taskNpuMemoryCaches := dev.taskNpuMemoryCaches.erase t } s') s) :
    (unRegisterMemoryCache dev t).wp (m.withHistory note) ok Q s := by
  rw [unRegisterMemoryCache]
  cases hfind : dev.taskNpuMemoryCaches.find? t with
  | none => exact hnone hfind
  | some manager => exact wp_bind.mpr (hsome manager hfind)

theorem frame_eraseOffset (dev : AccDeviceTaskLayer) (t : ℤ) :
    Frame t dev { dev with ppuBinaryOffsets := dev.ppuBinaryOffsets.erase t } where
  memInfos _ _ := rfl
  caches _ _ := rfl
  offsets t' ht := by simp [SortedMap.find?_erase, ht]
  configs _ _ := rfl

theorem frame_eraseCache (dev : AccDeviceTaskLayer) (t : ℤ) :
    Frame t dev { dev with taskNpuMemoryCaches := dev.taskNpuMemoryCaches.erase t } where
  memInfos _ _ := rfl
  caches t' ht := by simp [SortedMap.find?_erase, ht]
  offsets _ _ := rfl
  configs _ _ := rfl

section Rollback
variable {Q : AccDeviceTaskLayer → σ × List (ℤ × ℤ) → Prop}

theorem Owes.wp_rollbackModel (hrec : dev.Recorded t) (hoffset : dev.ppuBinaryOffsets.find? t = none)
    (h : L.Owes base t (dev.cacheIds t ++ dev.modelIds t) others s)
    (hQ : ∀ dev' s', Frame t dev dev' → dev'.taskStaticConfigs = dev.taskStaticConfigs →
      dev'.Clear t → L.Owes base t [] others s' → Q dev' s') :
    (rollbackModel dev t).wp (m.withHistory note) (registerOk harmless) Q s := by
  have hp : (dev.cacheIds t ++ dev.modelIds t).Perm
      ((dev.memInfos t).weightMemInfo.validId ++
        ((dev.memInfos t).rmapMemInfo.validId ++ dev.cacheIds t)) := by
    rw [validId_of_pos hrec.rmap, validId_of_pos hrec.weight, modelIds]
    exact List.perm_append_comm.trans (List.Perm.swap _ _ _)
  rw [rollbackModel, wp_bind]
  refine (h.perm hp).wp_deAllocateValid fun s₁ h₁ => ?_
  rw [wp_bind]
  refine h₁.wp_deAllocateValid fun s₂ h₂ => ?_
  refine wp_unRegisterMemoryCache (fun hnone => ?_) fun manager hsome => ?_
  · refine hQ _ s₂ (frame_setMemInfos _) rfl ⟨hnone, hoffset⟩ ?_
    rw [cacheIds, show dev.taskNpuMemoryCaches.find? t = none from hnone] at h₂
    exact h₂
  · rw [cacheIds, show dev.taskNpuMemoryCaches.find? t = some manager from hsome] at h₂
    refine h₂.wp_deAllocateInfo (List.mem_singleton_self _) fun s₃ h₃ => ?_
    refine hQ _ s₃ ((frame_setMemInfos _).trans (frame_eraseCache _ t)) rfl
      ⟨by simp [SortedMap.find?_erase], hoffset⟩ ?_
    simpa using h₃

/-- The rollback frees what is recorded, and clears the task. -/
theorem Owes.wp_rollback (hrec : dev.Recorded t) (h : L.Owes base t (dev.blockIds t) others s)
    (hQ : ∀ dev' s', Frame t dev dev' → dev'.taskStaticConfigs = dev.taskStaticConfigs →
      dev'.Clear t → L.Owes base t [] others s' → Q dev' s') :
    (rollback dev t).wp (m.withHistory note) (registerOk harmless) Q s := by
  rw [rollback]
  split_ifs with hppu
  · rw [blockIds, ppuIds, if_pos hppu, ← validId_of_pos (hrec.ppu hppu).1, List.append_assoc] at h
    have hp : (dev.cacheIds t ++ ((dev.memInfos t).ppuMemInfo.validId ++ dev.modelIds t)).Perm
        ((dev.memInfos t).ppuMemInfo.validId ++ (dev.cacheIds t ++ dev.modelIds t)) := by
      rw [← List.append_assoc, ← List.append_assoc]
      exact List.perm_append_comm.append_right _
    rw [wp_bind]
    refine (h.perm hp).wp_deAllocateValid fun s₁ h₁ => ?_
    have hoffset : (dev.ppuBinaryOffsets.erase t).find? t = none := by
      simp [SortedMap.find?_erase]
    refine Owes.wp_rollbackModel ⟨hrec.known, hrec.rmap, hrec.weight, fun hc => ?_⟩ hoffset h₁
      fun dev' s' hframe => hQ dev' s' ((frame_eraseOffset dev t).trans hframe)
    rw [SortedMap.contains, hoffset] at hc
    cases hc
  · rw [blockIds, ppuIds, if_neg hppu, List.append_nil] at h
    refine h.wp_rollbackModel hrec ?_ hQ
    simpa [SortedMap.contains] using hppu

end Rollback

/-- `RegisterTask`: success records what is owed, an error or an exception leaves nothing. -/
theorem Owes.wp_registerTask {task : TaskData} (hclear : dev.Clear task.id)
    (hconfig : dev.taskStaticConfigs.find? task.id = none)
    (h : L.Owes base task.id [] others s)
    {Q : AccDeviceTaskLayer × Outcome → σ × List (ℤ × ℤ) → Prop}
    (habort : ∀ dev' s', Q (dev', .aborted) s')
    (hok : ∀ dev' s', Frame task.id dev dev' → dev'.taskStaticConfigs.contains task.id = true →
      dev'.Recorded task.id → L.Owes base task.id (dev'.blockIds task.id) others s' →
      Q (dev', .returned 0) s')
    (hfail : ∀ dev' outcome s', outcome ≠ .returned 0 → Frame task.id dev dev' →
      dev'.taskStaticConfigs.find? task.id = none → dev'.Clear task.id →
      L.Owes base task.id [] others s' → Q (dev', outcome) s') :
    (registerTask dev task).wp (m.withHistory note) (registerOk harmless) Q s := by
  rw [registerTask]
  split_ifs
  · exact habort _ _
  rw [wp_bind]
  refine h.wp_allocateModel (fun weight rmap s₁ h₁ => ?_) (fun weight rmap s₁ hweight hrmap h₁ => ?_)
  · dsimp only
    rw [if_pos rfl]
    exact hfail _ _ s₁ (by decide) (frame_setMemInfos _) hconfig ⟨hclear.cache, hclear.offset⟩ h₁
  · dsimp only
    rw [if_neg (by decide), wp_bind]
    generalize hdev₁ : dev.setMemInfos task.id
      { dev.memInfos task.id with rmapMemInfo := rmap, weightMemInfo := weight } = dev₁
    have hframe₁ : Frame task.id dev dev₁ := hdev₁ ▸ frame_setMemInfos _
    have hconfig₁ : dev₁.taskStaticConfigs.find? task.id = none := hdev₁ ▸ hconfig
    have hclear₁ : dev₁.Clear task.id := hdev₁ ▸ ⟨hclear.cache, hclear.offset⟩
    have hinfos : dev₁.memInfos task.id =
        { dev.memInfos task.id with rmapMemInfo := rmap, weightMemInfo := weight } := by
      rw [← hdev₁, memInfos_setMemInfos]
    have hcontains : dev₁.ppuBinaryOffsets.contains task.id = false := by
      rw [SortedMap.contains, hclear₁.offset]
      rfl
    have hrec₁ : dev₁.Recorded task.id := by
      refine ⟨?_, hinfos ▸ hrmap, hinfos ▸ hweight, fun hc => ?_⟩
      · rw [← hdev₁]
        simp [setMemInfos, SortedMap.find?_insert]
      · rw [hcontains] at hc
        cases hc
    have hids : dev₁.blockIds task.id = [rmap.blockId, weight.blockId] := by
      simp [blockIds, cacheIds, ppuIds, modelIds, hclear₁.cache, hcontains, hinfos]
    rw [← hids] at h₁
    refine h₁.wp_tryRegister hclear₁ hrec₁ habort fun dev₂ exit s₂ hframe₂ hconfigs hrec₂ h₂ => ?_
    have hconfig₂ : dev₂.taskStaticConfigs.find? task.id = none := hconfigs ▸ hconfig₁
    have hundo : ∀ outcome, outcome ≠ .returned 0 →
        (do return (← rollback dev₂ task.id, outcome) : LayerProgram _).wp (m.withHistory note)
          (registerOk harmless) Q s₂ := by
      intro outcome houtcome
      rw [wp_bind]
      exact h₂.wp_rollback hrec₂ fun dev₃ s₃ hframe₃ hconfigs₃ hclear₃ h₃ =>
        hfail _ _ s₃ houtcome ((hframe₁.trans hframe₂).trans hframe₃) (hconfigs₃ ▸ hconfig₂)
          hclear₃ h₃
    cases exit with
    | none =>
      refine hok _ s₂ ((hframe₁.trans hframe₂).trans ⟨fun _ _ => rfl, fun _ _ => rfl,
        fun _ _ => rfl, fun t' ht => by simp [SortedMap.find?_insert, ht]⟩) ?_
        ⟨hrec₂.known, hrec₂.rmap, hrec₂.weight, hrec₂.ppu⟩ h₂
      simp [SortedMap.contains, SortedMap.find?_insert]
    | some exit =>
      cases exit with
      | failed => exact hundo _ (by decide)
      | threw => exact hundo _ (by decide)
      | aborted => exact habort _ _

/-! ### Release -/

section Release
variable {Q : AccDeviceTaskLayer → σ × List (ℤ × ℤ) → Prop}

theorem Owes.wp_deAllocateBlock {info : SharedMemoryInfo} (hpos : 0 < info.blockId)
    (h : L.Owes base t ids others s) {Q : Unit → σ × List (ℤ × ℤ) → Prop}
    (hQ : ∀ s', L.Owes base t (ids.erase info.blockId) others s' → Q () s') :
    (deAllocateBlock info).wp (m.withHistory note) (releaseOk harmless void t) Q s := by
  rw [deAllocateBlock, if_pos hpos]
  exact h.wp_release hQ

/-- When nothing is owed, `Release` may go through any block id. -/
theorem Owes.wp_deAllocateBlock_nil {info : SharedMemoryInfo} (h : L.Owes base t [] others s)
    {Q : Unit → σ × List (ℤ × ℤ) → Prop} (hQ : ∀ s', L.Owes base t [] others s' → Q () s') :
    (deAllocateBlock info).wp (m.withHistory note) (releaseOk harmless void t) Q s := by
  rw [deAllocateBlock]
  split_ifs
  · exact h.wp_release hQ
  · exact hQ s h

theorem frame_eraseMemInfos (dev : AccDeviceTaskLayer) (t : ℤ) :
    Frame t dev { dev with modelMemoryInfos := dev.modelMemoryInfos.erase t } where
  memInfos t' ht := by simp [SortedMap.find?_erase, ht]
  caches _ _ := rfl
  offsets _ _ := rfl
  configs _ _ := rfl

/-- The blocks of a task that is registered. -/
theorem Owes.wp_releaseBlocks (hrec : dev.Recorded t) {fallback : TaskStaticConfig}
    (h : L.Owes base t (dev.ppuIds t ++ dev.modelIds t) others s)
    (hQ : ∀ s', L.Owes base t [] others s' →
      Q { dev with modelMemoryInfos := dev.modelMemoryInfos.erase t } s') :
    (releaseBlocks dev t fallback).wp (m.withHistory note) (releaseOk harmless void t) Q s := by
  obtain ⟨memInfos, hfind⟩ := Option.isSome_iff_exists.mp hrec.known
  have hinfos : dev.memInfos t = memInfos := by
    rw [AccDeviceTaskLayer.memInfos, hfind, Option.getD_some]
  obtain ⟨_, hrmap, hweight, hppu⟩ := hrec
  rw [modelIds, ppuIds] at h
  rw [hinfos] at hrmap hweight hppu h
  rw [releaseBlocks, hfind, wp_bind]
  refine (h.perm List.perm_append_comm).wp_deAllocateBlock hrmap fun s₁ h₁ => ?_
  simp only [List.cons_append, List.nil_append, List.erase_cons_head] at h₁
  rw [wp_bind]
  refine h₁.wp_deAllocateBlock hweight fun s₂ h₂ => ?_
  simp only [List.erase_cons_head] at h₂
  by_cases hcontains : dev.ppuBinaryOffsets.contains t = true
  · obtain ⟨hpos, hsize⟩ := hppu hcontains
    rw [if_pos hcontains] at h₂
    rw [if_pos hsize, wp_bind]
    refine h₂.wp_deAllocateBlock hpos fun s₃ h₃ => hQ s₃ ?_
    simpa using h₃
  · rw [if_neg hcontains] at h₂
    split_ifs
    · rw [wp_bind]
      exact h₂.wp_deAllocateBlock_nil fun s₃ h₃ => hQ s₃ h₃
    · exact hQ s₂ h₂

/-- Nothing is owed, whatever ids and offsets are left from before. -/
theorem Owes.wp_releaseBlocks_nil {fallback : TaskStaticConfig} (h : L.Owes base t [] others s)
    (hQ : ∀ dev' s', Frame t dev dev' → dev'.taskStaticConfigs = dev.taskStaticConfigs →
      dev'.taskNpuMemoryCaches = dev.taskNpuMemoryCaches → L.Owes base t [] others s' →
      Q dev' s') :
    (releaseBlocks dev t fallback).wp (m.withHistory note) (releaseOk harmless void t) Q s := by
  rw [releaseBlocks]
  cases hfind : dev.modelMemoryInfos.find? t with
  | some memInfos =>
    simp only [wp_bind]
    refine h.wp_deAllocateBlock_nil fun s₁ h₁ => ?_
    refine h₁.wp_deAllocateBlock_nil fun s₂ h₂ => ?_
    split_ifs
    · rw [wp_bind]
      exact h₂.wp_deAllocateBlock_nil fun s₃ h₃ => hQ _ s₃ (frame_eraseMemInfos dev t) rfl rfl h₃
    · exact hQ _ s₂ (frame_eraseMemInfos dev t) rfl rfl h₂
  | none =>
    simp only [wp_bind]
    refine h.wp_release fun s₁ h₁ => ?_
    refine Owes.wp_release h₁ fun s₂ h₂ => ?_
    exact hQ _ s₂ (.refl _ _) rfl rfl h₂

/-- The second deallocation of the PPU binary meets nothing. -/
theorem Owes.wp_releasePpuBinary (hcache : dev.taskNpuMemoryCaches.find? t = none)
    (h : L.Owes base t [] others s)
    (hQ : ∀ dev' s', Frame t dev dev' → dev'.taskStaticConfigs = dev.taskStaticConfigs →
      dev'.Clear t → L.Owes base t [] others s' → Q dev' s') :
    (releasePpuBinary dev t).wp (m.withHistory note) (releaseOk harmless void t) Q s := by
  rw [releasePpuBinary]
  cases hfind : dev.ppuBinaryOffsets.find? t with
  | none => exact hQ _ s (.refl _ _) rfl ⟨hcache, hfind⟩ h
  | some offset =>
    have hdone : ∀ s₁, L.Owes base t [] others s₁ →
        Q { dev with ppuBinaryOffsets := dev.ppuBinaryOffsets.erase t } s₁ :=
      fun s₁ => hQ _ s₁ (frame_eraseOffset dev t) rfl ⟨hcache, by simp [SortedMap.find?_erase]⟩
    simp only
    split_ifs
    · rw [wp_bind]
      exact h.wp_release fun s₁ h₁ => hdone s₁ h₁
    · exact hdone s h

/-- `Release`: what is owed for the task is freed. It is what the maps record, or nothing. -/
theorem Owes.wp_releaseTask
    (h : L.Owes base t ids others s)
    (hids : ids = dev.blockIds t ∧ dev.Recorded t ∨ ids = [] ∧ dev.Clear t)
    (hQ : ∀ dev' s', Frame t dev dev' → dev'.taskStaticConfigs.find? t = none → dev'.Clear t →
      L.Owes base t [] others s' → Q dev' s') :
    (release dev t).wp (m.withHistory note) (releaseOk harmless void t) Q s := by
  rw [release, wp_bind]
  have hframe₀ : Frame t dev
      { dev with taskStaticConfigs := dev.taskStaticConfigs.erase t } :=
    ⟨fun _ _ => rfl, fun _ _ => rfl, fun _ _ => rfl,
      fun t' ht => by simp [SortedMap.find?_erase, ht]⟩
  have hconfig₀ : (dev.taskStaticConfigs.erase t).find? t = none := by
    simp [SortedMap.find?_erase]
  rcases hids with ⟨rfl, hrec⟩ | ⟨rfl, hclear⟩
  · -- the cache first, then the rest of what is recorded
    have hrest : ∀ dev₁ s₁, Frame t dev dev₁ → dev₁.taskStaticConfigs.find? t = none →
        dev₁.taskNpuMemoryCaches.find? t = none → dev₁.Recorded t →
        L.Owes base t (dev₁.ppuIds t ++ dev₁.modelIds t) others s₁ →
        (do releasePpuBinary (← releaseBlocks dev₁ t
            ((dev.taskStaticConfigs.find? t).getD ⟨0, 0, 0⟩)) t : LayerProgram _).wp
          (m.withHistory note) (releaseOk harmless void t) Q s₁ := by
      intro dev₁ s₁ hframe₁ hconfig₁ hcache₁ hrec₁ h₁
      rw [wp_bind]
      refine h₁.wp_releaseBlocks hrec₁ fun s₂ h₂ => ?_
      refine h₂.wp_releasePpuBinary hcache₁ fun dev₃ s₃ hframe₃ hconfigs₃ hclear₃ h₃ => ?_
      refine hQ _ s₃ ((hframe₁.trans (frame_eraseMemInfos dev₁ t)).trans hframe₃) ?_ hclear₃ h₃
      rw [hconfigs₃]
      exact hconfig₁
    have hrec₀ : ∀ caches, (⟨dev.modelMemoryInfos, caches, dev.ppuBinaryOffsets,
        dev.taskStaticConfigs.erase t⟩ : AccDeviceTaskLayer).Recorded t :=
      fun _ => ⟨hrec.known, hrec.rmap, hrec.weight, hrec.ppu⟩
    refine wp_unRegisterMemoryCache (fun hnone => ?_) fun manager hsome => ?_
    · have hcache : dev.cacheIds t = [] := by
        rw [cacheIds, show dev.taskNpuMemoryCaches.find? t = none from hnone]
        rfl
      rw [blockIds, hcache, List.nil_append] at h
      exact hrest _ s hframe₀ hconfig₀ hnone (hrec₀ _) h
    · have hcache : dev.cacheIds t = [manager.npuMemoryInfo.blockId] := by
        rw [cacheIds, show dev.taskNpuMemoryCaches.find? t = some manager from hsome]
        rfl
      rw [blockIds, hcache, List.append_assoc] at h
      refine h.wp_release fun s₁ h₁ => ?_
      simp only [List.cons_append, List.nil_append, List.erase_cons_head] at h₁
      exact hrest _ s₁ (hframe₀.trans (frame_eraseCache _ t)) hconfig₀
        (by simp [SortedMap.find?_erase]) (hrec₀ _) h₁
  · refine wp_unRegisterMemoryCache (fun hnone => ?_) fun manager hsome => ?_
    · rw [wp_bind]
      refine h.wp_releaseBlocks_nil fun dev₁ s₁ hframe₁ hconfigs₁ hcaches₁ h₁ => ?_
      refine h₁.wp_releasePpuBinary (hcaches₁ ▸ hnone) fun dev₂ s₂ hframe₂ hconfigs₂ hclear₂ h₂ => ?_
      refine hQ _ s₂ ((hframe₀.trans hframe₁).trans hframe₂) ?_ hclear₂ h₂
      rw [hconfigs₂, hconfigs₁]
      exact hconfig₀
    · have hnone := hclear.cache
      rw [show dev.taskNpuMemoryCaches.find? t = some manager from hsome] at hnone
      cases hnone

end Release

end Ledger
end DxRt
