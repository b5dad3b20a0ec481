import DxRt.Device.LoadSlots
import DxRt.Device.SliceLives

/-! Every slice of a task cache has one owner, over all runs.

    A slice moves from the free list to a request, stays with it, and goes back once, when
    `releaseBuffers` is called for a request that its device has answered. -/

namespace DxRt.Pipeline
open Workers DevicePool

variable {n : ℕ} {cfg : Config} {s s' : DevicePool n} {work new : List (Work n)} {w : Work n}
  {e : Circumstances} {d d' : Fin n} {r r' : ℕ} {t : ℤ}

/-! ### Each slice in one place -/

/-- The bytes of two slices do not overlap. -/
def Apart (x y : NpuMemoryCacheSlice) : Prop :=
  x.offset + x.size ≤ y.offset ∨ y.offset + y.size ≤ x.offset

/-- The slices of a cache, each in exactly one place. -/
structure OneOwner (m : TaskNpuMemoryCacheManager) (s : DevicePool n) (d : Fin n) (t : ℤ) :
    Prop where
  places : (free s d t ++ (held s d t).map Prod.snd).Perm m.npuMemoryCaches
  apart : (free s d t ++ (held s d t).map Prod.snd).Pairwise Apart
  once : (∀ x ∈ m.npuMemoryCaches, 0 < x.size) → (free s d t ++ (held s d t).map Prod.snd).Nodup

/-- A slice leaves a request only when its buffers are released, and then it is back in the free
    list. -/
structure Released (s : DevicePool n) (w : Work n) (s' : DevicePool n) (d : Fin n) (t : ℤ) :
    Prop where
  kept : ∀ r x, (r, x) ∈ held s d t → (r, x) ∈ held s' d t ∨ w = .completed r
  back : ∀ r x, w = .completed r → (r, x) ∈ held s d t →
    free s' d t = free s d t ++ [x] ∧ ∀ y, (r, y) ∉ held s' d t

/-! ### The slices of one cache -/

theorem mem_zeroCopy {x : NpuMemoryCacheSlice} (h : (r, x) ∈ zeroCopy s d t) :
    (s.request r).ioSlice = some (d, x) := by
  obtain ⟨⟨r', req⟩, hmem, hio⟩ := List.mem_filterMap.mp h
  obtain ⟨⟨d', y⟩, hslice, hcond⟩ := Option.bind_eq_some_iff.mp hio
  split_ifs at hcond with hc
  obtain ⟨rfl, rfl⟩ := Prod.mk.inj (Option.some.inj hcond)
  rw [DevicePool.request, (SortedMap.find?_eq_some _ _ _).mpr hmem, Option.getD_some]
  exact hc.1 ▸ hslice

theorem mem_ongoing {x : NpuMemoryCacheSlice} (h : (r, x) ∈ ongoing s d t) :
    alloc s d r = some ⟨x, t⟩ := by
  obtain ⟨⟨r', a⟩, hmem, ha⟩ := List.mem_filterMap.mp h
  rw [allocationOf] at ha
  split_ifs at ha with ht
  obtain ⟨rfl, rfl⟩ := Prod.mk.inj (Option.some.inj ha)
  rw [alloc, (SortedMap.find?_eq_some _ _ _).mpr hmem, ← ht]

theorem managed_enter {x : NpuMemoryCacheSlice} (h : Managed s d t) :
    Managed (s.enter cfg d' r x) d t := by
  rw [Managed, enter, taskLayers_setLayer]
  split_ifs with hd
  · subst hd
    exact h
  · exact h

theorem managed_prepareZeroCopyIo (h : Managed s d t)
    (hprepare : s.prepareZeroCopyIo cfg d' r = some s') : Managed s' d t := by
  rcases prepareZeroCopyIo_cases hprepare with
    rfl | ⟨_, _, _, _, _, ⟨_, rfl⟩ | ⟨_, rfl⟩ | ⟨_, rfl⟩⟩
  · exact h
  · exact managed_setManager _ h
  · exact managed_setManager _ h
  · exact managed_setManager (s := s) _ h

theorem managed_cacheSlice {x : NpuMemoryCacheSlice} (h : Managed s d t)
    (hcache : s.cacheSlice e d' r = some (x, s')) : Managed s' d t := by
  rcases cacheSlice_cases hcache with ⟨_, _, rfl⟩ | ⟨_, ⟨_, rfl⟩ | ⟨_, _, _, _, rfl⟩⟩
  · exact h
  · exact h
  · exact managed_setManager _ h

/-- What a step does to the slices of a cache. -/
structure Transfers (s : DevicePool n) (w : Work n) (s' : DevicePool n) (d : Fin n) (t : ℤ) :
    Prop where
  managed : Managed s' d t
  move : (∃ r, Move s r s' d t) ∨ ∃ r, w = .completed r ∧ s' = s.reset r

theorem SameHold.transfers (h : SameHold s s') (hm : Managed s d t) : Transfers s w s' d t :=
  ⟨h.managed hm, Or.inl ⟨0, h.move⟩⟩

theorem transfers_picked (hhas : Idle s r) (hok : e.throws = false → ZeroCopyValid cfg s d' r)
    (hm : Managed s d t) (hexec : s.prepare cfg e d' r = (s', new)) :
    Transfers s (.picked d' r) s' d t := by
  rw [prepare] at hexec
  by_cases hthrows : e.throws = true
  · rw [if_pos hthrows] at hexec
    obtain ⟨rfl, rfl⟩ := Prod.mk.inj hexec
    exact SameHold.callBack.transfers hm
  rw [if_neg hthrows] at hexec
  cases hprepare : s.prepareZeroCopyIo cfg d' r with
  | none =>
    rw [hprepare] at hexec
    obtain ⟨rfl, rfl⟩ := Prod.mk.inj hexec
    exact (SameHold.refl s).transfers hm
  | some s₁ =>
    rw [hprepare] at hexec
    have hs' : s₁ = s' := by
      simp only at hexec
      split_ifs at hexec <;> exact (Prod.mk.inj hexec).1
    subst hs'
    exact ⟨managed_prepareZeroCopyIo hm hprepare,
      Or.inl ⟨r, move_prepareZeroCopyIo (hok (by simpa using hthrows)) hhas.1 hprepare⟩⟩

theorem transfers_inferenceRequest (hhas : Has cfg s (.inferenceRequest d' r))
    (hok : SliceOrderly cfg s (.inferenceRequest d' r) e) (hm : Managed s d t)
    (hexec : s.inferenceRequest cfg e d' r = some (s', new)) :
    Transfers s (.inferenceRequest d' r) s' d t := by
  obtain ⟨hio, hnone⟩ := hhas
  have hdevice : ∀ p ∈ (s.request r).ioSlice, p.1 = d' := fun p hp => (hio p hp).1
  rw [DevicePool.inferenceRequest] at hexec
  by_cases hthrows : e.throws = true
  · rw [if_pos hthrows] at hexec
    cases hexec
    exact (SameHold.refl s).transfers hm
  rw [if_neg hthrows] at hexec
  cases htype : (s.taskLayers d').type with
  | std =>
    simp only [htype, Option.some.injEq, Prod.mk.injEq] at hexec
    obtain ⟨rfl, rfl⟩ := hexec
    exact (SameHold.refl s).transfers hm
  | acc =>
    simp only [htype, inferenceRequestACC] at hexec
    by_cases hconfig :
        (s.taskLayers d').tasks.taskStaticConfigs.contains (s.request r).task.id = false
    · rw [if_pos hconfig] at hexec
      cases hexec
    rw [if_neg hconfig] at hexec
    cases hcache : s.cacheSlice e d' r with
    | none =>
      rw [hcache] at hexec
      cases hexec
      exact (SameHold.refl s).transfers hm
    | some p =>
      obtain ⟨x, s₁⟩ := p
      rw [hcache] at hexec
      simp only at hexec
      by_cases hvalid : x.isValid = false
      · rw [if_pos hvalid] at hexec
        cases hexec
      rw [if_neg hvalid] at hexec
      have hvalidate : SameHold s₁ (s₁.validateLoad cfg d') := .validateLoad
      have hm₁ := hvalidate.managed (managed_cacheSlice hm hcache)
      by_cases hlate : e.throwsLate = true
      · rw [if_pos hlate] at hexec
        cases hexec
        have hunmanaged : ¬ Managed s d' (s.request r).task.id := fun hmanaged => by
          rw [hok htype hmanaged] at hlate
          cases hlate
        exact ⟨hm₁, Or.inl ⟨r, (move_dropped hm hunmanaged hdevice hcache).after hvalidate⟩⟩
      · rw [if_neg hlate] at hexec
        cases hexec
        have hentered : SameHold (s₁.enter cfg d' r x) ((s₁.validateLoad cfg d').enter cfg d' r x) := by
          refine ⟨hvalidate.requests, fun d₁ => ?_, fun d₁ => ?_, fun d₁ => ?_⟩ <;>
            rw [enter, enter, taskLayers_setLayer, taskLayers_setLayer] <;> split_ifs
          · exact hvalidate.caches d'
          · exact hvalidate.caches d₁
          · simp only [hvalidate.allocations d', hvalidate.request]
          · exact hvalidate.allocations d₁
          · exact hvalidate.type d'
          · exact hvalidate.type d₁
        exact ⟨managed_enter hm₁,
          Or.inl ⟨r, (move_enter hm hdevice (hnone d') hcache).after hentered⟩⟩

theorem transfers_output {response : Response} (hm : Managed s d t)
    (hexec : s.outputHandler cfg e d' response = some (s', new)) :
    Transfers s (.output d' response) s' d t := by
  rw [outputHandler] at hexec
  by_cases hignored : response.procId = 0 ∨ response.procId ≠ cfg.pid
  · rw [if_pos hignored] at hexec
    cases hexec
    exact (SameHold.refl s).transfers hm
  rw [if_neg hignored] at hexec
  have hpeek : SameHold s (s.setLayer d' ((s.taskLayers d').peekInference response.reqId).1) :=
    .peekInference
  obtain ⟨s₁, hs₁⟩ : ∃ s₁, s₁ = (s.setLayer d'
    ((s.taskLayers d').peekInference response.reqId).1).setRequest response.reqId
      { s.request response.reqId with processedDevId := some d' } := ⟨_, rfl⟩
  have hm₁ : Managed s₁ d t := by
    rw [hs₁]
    exact hpeek.managed hm
  have hmove : Move s response.reqId s₁ d t := by
    rw [hs₁]
    refine .same (hpeek.free d t) (List.Perm.append ?_ (by rw [ongoing, ← hpeek.ongoing d t]; rfl))
    rw [← hpeek.zeroCopy d t]
    exact zeroCopy_same (by rw [hpeek.request]; rfl)
  have hafter : ∀ {s'}, SameHold s₁ s' → Transfers s (.output d' response) s' d t := fun hsame =>
    ⟨hsame.managed hm₁, Or.inl ⟨_, hmove.after hsame⟩⟩
  simp only [← hs₁] at hexec
  split_ifs at hexec
  · cases hexec
    exact hafter (.refl _)
  · cases hexec
    exact hafter .block
  · cases hexec
    exact hafter .callBack
  · cases hexec
    exact hafter .callBack

theorem transfers_clearReleased (hm : Managed s d t) :
    Transfers s (.cleared r) (s.clearReleased r) d t :=
  have hzero : (zeroCopy (s.clearReleased r) d t).Perm (zeroCopy s d t) :=
    zeroCopy_same (s := s) (r := r) rfl
  ⟨hm, Or.inl ⟨r, .same rfl (hzero.append_right _)⟩⟩

theorem transfers_exec {rest : List (Work n)} (h : LifeInv cfg s (w :: rest))
    (hok : SliceOrderly cfg s w e) (hm : Managed s d t) (hexec : s.exec cfg e w = some (s', new)) :
    Transfers s w s' d t := by
  have hhas := h.has w List.mem_cons_self
  cases w with
  | created r =>
    have hcreated : s.pickOneDevice e r = (s', new) := Option.some.inj hexec
    rw [pickOneDevice] at hcreated
    split at hcreated
    · obtain ⟨rfl, rfl⟩ := Prod.mk.inj hcreated
      exact (SameHold.refl s).transfers hm
    · split_ifs at hcreated <;> obtain ⟨rfl, rfl⟩ := Prod.mk.inj hcreated
      · exact (SameHold.refl s).transfers hm
      · exact (SameHold.refl s).transfers hm
    · obtain ⟨rfl, rfl⟩ := Prod.mk.inj hcreated
      exact SameHold.pick.transfers hm
  | picked d' r => exact transfers_picked hhas hok hm (Option.some.inj hexec)
  | nfhInput d' r =>
    simp only [DevicePool.exec, DevicePool.handleInput, Option.some.injEq] at hexec
    split_ifs at hexec <;> obtain ⟨rfl, rfl⟩ := Prod.mk.inj hexec <;>
      exact (SameHold.refl s).transfers hm
  | inferenceRequest d' r => exact transfers_inferenceRequest hhas hok hm hexec
  | input d' r =>
    have hpeek : SameHold s (s.setLayer d' ((s.taskLayers d').peekInference r).1) := .peekInference
    simp only [DevicePool.exec, inputHandler] at hexec
    split_ifs at hexec <;> obtain ⟨rfl, rfl⟩ := Prod.mk.inj (Option.some.inj hexec)
    · exact hpeek.transfers hm
    · exact (hpeek.trans .block).transfers hm
    · exact hpeek.transfers hm
  | handleInferenceAcc d' acc =>
    simp only [DevicePool.exec, DevicePool.handleInferenceAcc, Option.some.injEq] at hexec
    split_ifs at hexec <;> obtain ⟨rfl, rfl⟩ := Prod.mk.inj hexec <;>
      exact (SameHold.refl s).transfers hm
  | running d' acc =>
    simp only [DevicePool.exec, receive] at hexec
    split at hexec
    · split_ifs at hexec <;> obtain ⟨rfl, rfl⟩ := Prod.mk.inj (Option.some.inj hexec)
      · exact (SameHold.refl s).transfers hm
      · exact SameHold.callBack.transfers hm
    · split_ifs at hexec <;> obtain ⟨rfl, rfl⟩ := Prod.mk.inj (Option.some.inj hexec)
      · exact (SameHold.refl s).transfers hm
      · exact SameHold.block.transfers hm
  | output d' response => exact transfers_output hm hexec
  | eraseOngoing d' r =>
    obtain ⟨rfl, rfl⟩ := Prod.mk.inj (Option.some.inj hexec)
    exact SameHold.eraseOngoing.transfers hm
  | nfhOutput d' r =>
    simp only [DevicePool.exec, DevicePool.handleOutput, Option.some.injEq] at hexec
    split_ifs at hexec <;> obtain ⟨rfl, rfl⟩ := Prod.mk.inj hexec <;>
      exact (SameHold.refl s).transfers hm
  | completed r =>
    obtain ⟨rfl, rfl⟩ := Prod.mk.inj (Option.some.inj hexec)
    refine ⟨?_, Or.inr ⟨r, rfl, rfl⟩⟩
    rw [reset_eq hok]
    change Managed (giveBack s r) d t
    rw [giveBack]
    split
    · exact managed_release hm
    · exact hm
  | cleared r =>
    obtain ⟨rfl, rfl⟩ := Prod.mk.inj (Option.some.inj hexec)
    exact transfers_clearReleased hm

/-- What the release of the buffers of `r` gives back to a cache. -/
def given (s : DevicePool n) (r : ℕ) (d : Fin n) (t : ℤ) : List (ℕ × NpuMemoryCacheSlice) :=
  match (s.request r).processedDevId with
  | some d' => back s d' r d t
  | none => []

theorem mem_given {p : ℕ × NpuMemoryCacheSlice} (h : p ∈ given s r d t) : p.1 = r := by
  rw [given] at h
  split at h
  · rw [back] at h
    split_ifs at h
    · obtain ⟨a, _, ha⟩ := Option.bind_eq_some_iff.mp (Option.mem_toList.mp h)
      rw [allocationOf] at ha
      split_ifs at ha
      exact (congrArg Prod.fst (Option.some.inj ha)).symm
    · cases h
  · cases h

theorem free_reset (hflag : (s.request r).bufferReleased = false) (hm : Managed s d t) :
    free (s.reset r) d t = free s d t ++ (given s r d t).map Prod.snd := by
  rw [reset_eq hflag]
  change free (giveBack s r) d t = _
  rw [giveBack, given]
  cases (s.request r).processedDevId with
  | some d' => exact free_release hm
  | none => exact (List.append_nil _).symm

theorem held_reset (hflag : (s.request r).bufferReleased = false) :
    (held s d t).Perm (given s r d t ++ held (s.reset r) d t) := by
  have hongoing : (ongoing s d t).Perm (given s r d t ++ ongoing (s.reset r) d t) := by
    rw [reset_eq hflag]
    change (ongoing s d t).Perm (given s r d t ++ ongoing (giveBack s r) d t)
    rw [giveBack, given]
    cases (s.request r).processedDevId with
    | some d' => exact ongoing_release
    | none => exact List.Perm.refl _
  have hgive : (giveBack s r).requests = s.requests := by
    rw [giveBack]
    split <;> rfl
  have hzero : (zeroCopy (s.reset r) d t).Perm (zeroCopy s d t) := by
    have hreq : ∀ r', (giveBack s r).request r' = s.request r' := fun r' => by
      rw [DevicePool.request, DevicePool.request, hgive]
    have hbefore : zeroCopy (giveBack s r) d t = zeroCopy s d t := by
      rw [zeroCopy, zeroCopy, hgive]
    rw [reset_eq hflag, ← hbefore]
    refine (zeroCopy_same ?_).trans (zeroCopy_same ?_)
    · rw [request_setRequest, if_pos rfl]
      rfl
    · rw [hreq]
      rfl
  rw [held, held]
  refine (hzero.symm.append hongoing).trans ?_
  rw [← List.append_assoc, ← List.append_assoc]
  exact List.perm_append_comm.append_right _

/-- The places of the slices are permuted. -/
theorem Transfers.places (h : Transfers s w s' d t) (hm : Managed s d t)
    (hok : SliceOrderly cfg s w e) :
    (free s' d t ++ (held s' d t).map Prod.snd).Perm (free s d t ++ (held s d t).map Prod.snd) := by
  rcases h.move with ⟨r, hmove⟩ | ⟨r, rfl, rfl⟩
  · cases hmove with
    | same hfree hheld =>
      rw [hfree]
      exact (hheld.map Prod.snd).append_left _
    | take x hfree hheld =>
      rw [hfree, List.append_assoc]
      exact (hheld.map Prod.snd).append_left _
  · rw [free_reset hok hm, List.append_assoc, ← List.map_append]
    exact ((held_reset hok).symm.map Prod.snd).append_left _

theorem mem_given_of_answered {x : NpuMemoryCacheSlice} (hhas : Has cfg s (.completed r))
    (hmem : (r, x) ∈ held s d t) : given s r d t = [(r, x)] := by
  have halloc : alloc s d r = some ⟨x, t⟩ := by
    rcases List.mem_append.mp hmem with hio | hongoing
    · have hslice := hhas.1
      rw [mem_zeroCopy hio] at hslice
      cases hslice
    · exact mem_ongoing hongoing
  have hdevice : (s.request r).processedDevId = some d :=
    hhas.2 d (by rw [halloc]; exact Option.some_ne_none _)
  rw [given, hdevice]
  exact (back_of_some halloc).trans (if_pos rfl)

/-- After its release a request has no slice. -/
theorem not_held_reset (hhas : Has cfg s (.completed r))
    (hflag : (s.request r).bufferReleased = false) (x : NpuMemoryCacheSlice) :
    (r, x) ∉ held (s.reset r) d t := by
  have hidle : Idle (s.reset r) r :=
    ⟨by rw [reset_eq hflag, request_setRequest, if_pos rfl]; exact hhas.1,
      fun d => by rw [reset_eq hflag]; exact alloc_giveBack hhas.2 d⟩
  intro hmem
  rcases List.mem_append.mp hmem with hio | hongoing
  · have hslice := mem_zeroCopy hio
    rw [hidle.1] at hslice
    cases hslice
  · have halloc := mem_ongoing hongoing
    rw [hidle.2] at halloc
    cases halloc

theorem Transfers.released (h : Transfers s w s' d t) (hm : Managed s d t) (hhas : Has cfg s w)
    (hok : SliceOrderly cfg s w e) (hreset : ∀ r, w = .completed r → s' = s.reset r) :
    Released s w s' d t where
  kept r x hmem := by
    rcases h.move with ⟨r', hmove⟩ | ⟨r', rfl, rfl⟩
    · refine Or.inl ?_
      cases hmove with
      | same _ hheld => exact hheld.mem_iff.mpr hmem
      | take y _ hheld => exact hheld.mem_iff.mpr (List.mem_cons_of_mem _ hmem)
    · by_cases hr : r = r'
      · exact Or.inr (by rw [hr])
      · -- what is given back is of the other request
        refine Or.inl ?_
        rcases List.mem_append.mp ((held_reset hok).mem_iff.mp hmem) with hgiven | hheld
        · exact absurd (mem_given hgiven) hr
        · exact hheld
  back r x heq hmem := by
    obtain rfl := hreset r heq
    subst heq
    refine ⟨?_, not_held_reset hhas hok⟩
    rw [free_reset hok hm, mem_given_of_answered hhas hmem]
    rfl

/-! ### The cache at its start -/

theorem Apart.symm {x y : NpuMemoryCacheSlice} (h : Apart x y) : Apart y x := Or.symm h

theorem apart_make {size : ℤ} {count : ℕ} {info : SharedMemoryInfo} (hsize : 0 ≤ size)
    (hfits : size * count < 2 ^ 63) :
    (TaskNpuMemoryCacheManager.make size count info).npuMemoryCaches.Pairwise Apart := by
  rw [TaskNpuMemoryCacheManager.make, List.pairwise_map]
  refine List.Pairwise.imp_of_mem ?_ List.pairwise_lt_range
  intro i j _ hj hlt
  -- the products do not wrap
  have hcount : j < count := List.mem_range.mp hj
  have hnext : size * i + size ≤ size * j := by
    have hmul : size * ((i : ℤ) + 1) ≤ size * j :=
      mul_le_mul_of_nonneg_left (by exact_mod_cast hlt) hsize
    rwa [mul_add, mul_one] at hmul
  have hlast : size * j + size ≤ size * count := by
    have hmul : size * ((j : ℤ) + 1) ≤ size * count :=
      mul_le_mul_of_nonneg_left (by exact_mod_cast hcount) hsize
    rwa [mul_add, mul_one] at hmul
  have hi : 0 ≤ size * i := mul_nonneg hsize (by positivity)
  have hnat : ∀ {z : ℤ}, 0 ≤ z → z < 2 ^ 63 → (HandleTable.toUint64 z : ℤ) = z := fun h₀ h₁ => by
    rw [HandleTable.toUint64]
    omega
  refine Or.inl ?_
  zify
  rw [hnat hi (by omega), hnat hsize (by omega), hnat (by omega) (by omega)]
  exact hnext

theorem nodup_of_apart {l : List NpuMemoryCacheSlice} (h : l.Pairwise Apart)
    (hpos : ∀ x ∈ l, 0 < x.size) : l.Nodup := by
  refine List.Pairwise.imp_of_mem ?_ h
  rintro x y hx - happart rfl
  have hx := hpos x hx
  rcases happart with hle | hle <;> omega

theorem oneOwner_of_places {m : TaskNpuMemoryCacheManager} (hapart : m.npuMemoryCaches.Pairwise Apart)
    (hplaces : (free s d t ++ (held s d t).map Prod.snd).Perm m.npuMemoryCaches) :
    OneOwner m s d t := by
  have hpair := hplaces.symm.pairwise hapart Apart.symm
  exact ⟨hplaces, hpair, fun hpos =>
    nodup_of_apart hpair fun x hx => hpos x (hplaces.mem_iff.mp hx)⟩

/-! ### Every run -/

/-- A new request has no slice, and the end of a recovery leaves the slices alone. -/
theorem arrive_places {a : Arrival n} (hlife : LifeInv cfg s work) (hm : Managed s d t)
    (harrive : s.arrive a = some (s', new)) :
    Managed s' d t ∧ free s' d t = free s d t ∧ (held s' d t).Perm (held s d t) := by
  cases a with
  | create r task =>
    simp only [DevicePool.arrive] at harrive
    split_ifs at harrive with hflag
    obtain ⟨rfl, rfl⟩ := Prod.mk.inj (Option.some.inj harrive)
    have hidle := hlife.sound.idle r (by simpa using hflag)
    refine ⟨hm, rfl, List.Perm.append_right _ (zeroCopy_same ?_)⟩
    rw [ioOf_none hidle.1, ioOf_none rfl]
  | unblock d' =>
    obtain ⟨rfl, rfl⟩ := Prod.mk.inj (Option.some.inj harrive)
    have hsame : SameHold s (s.setLayer d' { s.taskLayers d' with blocked := false }) :=
      .setLayer rfl rfl rfl
    exact ⟨hsame.managed hm, hsame.free d t, by rw [hsame.held]⟩

structure OwnerInv (cfg : Config) (m : TaskNpuMemoryCacheManager) (d : Fin n) (t : ℤ)
    (s : DevicePool n) (work : List (Work n)) : Prop where
  life : LifeInv cfg s work
  managed : Managed s d t
  places : (free s d t ++ (held s d t).map Prod.snd).Perm m.npuMemoryCaches

theorem lifeInv_init (type : Fin n → DeviceType) (tasks : Fin n → AccDeviceTaskLayer) :
    LifeInv cfg (DevicePool.init type tasks) [] where
  sound := {
    idle := fun _ _ => ⟨rfl, fun _ => rfl⟩
    std := fun _ _ _ => rfl
    stamped := fun _ _ _ hacc => nomatch hacc }
  nodup := List.nodup_nil
  used _ hr := nomatch hr
  has _ hw := nomatch hw

theorem ownerInv_init (type : Fin n → DeviceType) (tasks : Fin n → AccDeviceTaskLayer)
    {m : TaskNpuMemoryCacheManager} (h : (tasks d).taskNpuMemoryCaches.find? t = some m) :
    OwnerInv cfg m d t (DevicePool.init type tasks) [] where
  life := lifeInv_init type tasks
  managed := by
    rw [Managed, TaskLayer.manager?]
    exact h ▸ rfl
  places := by
    rw [free_of_manager (s := DevicePool.init type tasks) h]
    exact List.Perm.of_eq (List.append_nil _)

theorem ownerInv_run {m : TaskNpuMemoryCacheManager} (hpid : cfg.pid ≠ 0)
    {c c' : Workers.Config (DevicePool n) (Work n)}
    (hrun : Relation.ReflTransGen (Step (system n cfg) (SliceOrderly cfg) fun _ _ => True) c c')
    (h : OwnerInv cfg m d t c.shared c.work) : OwnerInv cfg m d t c'.shared c'.work := by
  refine Workers.invariant (fun s l l' hp h => ⟨h.life.perm hp, h.managed, h.places⟩) ?_ ?_ hrun h
  · intro s w rest e s' new h hok hexec
    have htransfers := transfers_exec h.life hok h.managed hexec
    exact ⟨h.life.exec hpid hok hexec, htransfers.managed,
      (htransfers.places h.managed hok).trans h.places⟩
  · intro s work a s' new h _ harrive
    obtain ⟨hm, hfree, hheld⟩ := arrive_places h.life h.managed harrive
    refine ⟨h.life.arrive harrive, hm, ?_⟩
    rw [hfree]
    exact ((hheld.map Prod.snd).append_left _).trans h.places

theorem OwnerInv.released {m : TaskNpuMemoryCacheManager} (h : OwnerInv cfg m d t s work)
    (hw : w ∈ work) (hok : SliceOrderly cfg s w e) (hexec : s.exec cfg e w = some (s', new)) :
    Released s w s' d t := by
  obtain ⟨before, after, rfl⟩ := List.append_of_mem hw
  have hfront : LifeInv cfg s (w :: (before ++ after)) := h.life.perm List.perm_middle
  refine (transfers_exec hfront hok h.managed hexec).released h.managed (h.life.has w hw) hok ?_
  rintro r rfl
  exact (Prod.mk.inj (Option.some.inj hexec)).1.symm

/-- In every run in which no slice is lost to an exception or to a check, and no request is reset
    while its flag is still up from its last use, the slices of a cache have one owner each, and go
    back when the buffers of a request are released. -/
theorem slices_one_owner (hpid : cfg.pid ≠ 0) (type : Fin n → DeviceType)
    (tasks : Fin n → AccDeviceTaskLayer) {size : ℤ} {count : ℕ} {info : SharedMemoryInfo}
    (hcache : (tasks d).taskNpuMemoryCaches.find? t = some (.make size count info))
    (hsize : 0 ≤ size) (hfits : size * count < 2 ^ 63)
    {c : Workers.Config (DevicePool n) (Work n)}
    (hrun : Relation.ReflTransGen (Step (system n cfg) (SliceOrderly cfg) fun _ _ => True)
      ⟨DevicePool.init type tasks, []⟩ c) :
    OneOwner (.make size count info) c.shared d t ∧
      (∀ w ∈ c.work, ∀ e s' new, SliceOrderly cfg c.shared w e →
        (system n cfg).exec c.shared w e = some (s', new) → Released c.shared w s' d t) ∧
      ∀ a s' new, (system n cfg).arrive c.shared a = some (s', new) →
        (held s' d t).Perm (held c.shared d t) := by
  have hinv : OwnerInv cfg (.make size count info) d t c.shared c.work :=
    ownerInv_run hpid hrun (ownerInv_init type tasks hcache)
  refine ⟨oneOwner_of_places (apart_make hsize hfits) hinv.places, ?_, ?_⟩
  · intro w hw e s' new hok hexec
    exact hinv.released hw hok hexec
  · intro a s' new harrive
    exact (arrive_places hinv.life hinv.managed harrive).2.2

/-- With a service, a request that is completed and one that has been prepared have both slices. -/
theorem slices_one_owner_two_requests : ∃ c : Workers.Config (DevicePool 1) (Work 1),
    Relation.ReflTransGen (Step (system 1 ⟨true, false, 42⟩) (SliceOrderly ⟨true, false, 42⟩)
      fun _ _ => True) ⟨DevicePool.init (fun _ => .acc) fun _ => oneTask, []⟩ c ∧
    zeroCopy c.shared 0 7 = [(4, ⟨⟨1, 256, 2 ^ 30, 0, 0, 5⟩, 0, 128⟩)] ∧
    ongoing c.shared 0 7 = [(3, ⟨⟨1, 256, 2 ^ 30, 0, 0, 5⟩, 128, 128⟩)] ∧
    OneOwner (.make 128 2 ⟨1, 256, 2 ^ 30, 0, 0, 5⟩) c.shared 0 7 ∧
    Released c.shared (.completed 3) (c.shared.reset 3) 0 7 := by
  have hplay : ∃ c, play (system 1 ⟨true, false, 42⟩) (SliceOrderly ⟨true, false, 42⟩)
      (fun _ _ => True) ⟨DevicePool.init (fun _ => .acc) fun _ => oneTask, []⟩
      (ask 3 :: List.replicate 9 (.work 0 calm) ++ [ask 4, .work 0 calm, .work 0 calm]) = some c ∧
      zeroCopy c.shared 0 7 = [(4, ⟨⟨1, 256, 2 ^ 30, 0, 0, 5⟩, 0, 128⟩)] ∧
      ongoing c.shared 0 7 = [(3, ⟨⟨1, 256, 2 ^ 30, 0, 0, 5⟩, 128, 128⟩)] ∧
      Work.completed 3 ∈ c.work ∧ (c.shared.request 3).bufferReleased = false := by
    refine ⟨_, rfl, by decide +kernel, by decide +kernel, by decide +kernel, by decide +kernel⟩
  obtain ⟨c, hc, hzero, hongoing, hmem, hflag⟩ := hplay
  have hcache : oneTask.taskNpuMemoryCaches.find? 7 =
      some (.make 128 2 ⟨1, 256, 2 ^ 30, 0, 0, 5⟩) := rfl
  obtain ⟨howner, hreleased, _⟩ := slices_one_owner (d := 0) (by decide) (fun _ => .acc)
    (fun _ => oneTask) hcache (by decide) (by decide) (play_run hc)
  exact ⟨c, play_run hc, hzero, hongoing, howner, hreleased _ hmem calm _ _ hflag rfl⟩

/-- A request is created again before the last statement of its reset. The flag is still up, so
    that its next slice is not given back. -/
theorem slices_reused_before_cleared : ∃ c : Workers.Config (DevicePool 1) (Work 1),
    Relation.ReflTransGen (Step (system 1 ⟨false, false, 42⟩) (fun _ _ _ => True)
      fun _ _ => True) ⟨DevicePool.init (fun _ => .acc) fun _ => oneTask, []⟩ c ∧
    Work.completed 3 ∈ c.work ∧ (c.shared.request 3).processedDevId = some 0 ∧
    (3, ⟨⟨1, 256, 2 ^ 30, 0, 0, 5⟩, 128, 128⟩) ∈ held c.shared 0 7 ∧
    free (c.shared.reset 3) 0 7 = free c.shared 0 7 ∧
    ¬ Released c.shared (.completed 3) (c.shared.reset 3) 0 7 := by
  have hplay : ∃ c, play (system 1 ⟨false, false, 42⟩) (fun _ _ _ => True)
      (fun _ _ => True) ⟨DevicePool.init (fun _ => .acc) fun _ => oneTask, []⟩
      (ask 3 :: List.replicate 10 (.work 0 calm) ++ .work 1 calm :: ask 3 ::
        List.replicate 9 (.work 0 calm)) = some c ∧
      Work.completed 3 ∈ c.work ∧ (c.shared.request 3).processedDevId = some 0 ∧
      (3, ⟨⟨1, 256, 2 ^ 30, 0, 0, 5⟩, 128, 128⟩) ∈ held c.shared 0 7 ∧
      free (c.shared.reset 3) 0 7 = free c.shared 0 7 := by
    refine ⟨_, rfl, by decide +kernel, by decide +kernel, by decide +kernel, by decide +kernel⟩
  obtain ⟨c, hc, hmem, hdevice, hheld, hfree⟩ := hplay
  refine ⟨c, play_run hc, hmem, hdevice, hheld, hfree, fun hreleased => ?_⟩
  have hback := (hreleased.back 3 _ rfl hheld).1
  rw [hfree] at hback
  simpa using congrArg List.length hback

end DxRt.Pipeline
