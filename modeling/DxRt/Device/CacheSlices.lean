import DxRt.Device.Pipeline

/-! The slices of a task cache: each is in the free list or with one request.

    A request gets its slice in `PrepareZeroCopyIo` or in `InferenceRequestACC`, keeps it in
    `_ioSlice` and then in `_ongoingInputAllocations`, and gives it back in `releaseBuffers`, on the
    device that has answered it. This module is about the functions by themselves: each leaves the
    slices of a cache where they are, takes one for a request, or gives one back. -/

namespace DxRt.Pipeline
open Workers DevicePool

variable {n : ℕ} {cfg : Config} {s s' s'' : DevicePool n} {e : Circumstances} {d d' : Fin n}
  {r r' : ℕ} {t t' : ℤ}

/-! ### Where a slice can be -/

/-- The free slices of a task. -/
def free (s : DevicePool n) (d : Fin n) (t : ℤ) : List NpuMemoryCacheSlice :=
  (((s.taskLayers d).manager? t).map TaskNpuMemoryCacheManager.npuMemoryCaches).getD []

/-- The allocation of a request on a device. -/
def alloc (s : DevicePool n) (d : Fin n) (r : ℕ) : Option OngoingCacheAllocation :=
  (s.taskLayers d).ongoingInputAllocations.find? r

def ioOf (d : Fin n) (t : ℤ) (p : ℕ × Request n) : Option (ℕ × NpuMemoryCacheSlice) :=
  p.2.ioSlice.bind fun io => if io.1 = d ∧ p.2.task.id = t then some (p.1, io.2) else none

def allocationOf (t : ℤ) (p : ℕ × OngoingCacheAllocation) : Option (ℕ × NpuMemoryCacheSlice) :=
  if p.2.taskId = t then some (p.1, p.2.slice) else none

/-- The slices in `_ioSlice`, with their requests. -/
def zeroCopy (s : DevicePool n) (d : Fin n) (t : ℤ) : List (ℕ × NpuMemoryCacheSlice) :=
  s.requests.entries.filterMap (ioOf d t)

/-- The slices in `_ongoingInputAllocations`, with their requests. -/
def ongoing (s : DevicePool n) (d : Fin n) (t : ℤ) : List (ℕ × NpuMemoryCacheSlice) :=
  (s.taskLayers d).ongoingInputAllocations.entries.filterMap (allocationOf t)

/-- The slices that requests have in hand. -/
def held (s : DevicePool n) (d : Fin n) (t : ℤ) : List (ℕ × NpuMemoryCacheSlice) :=
  zeroCopy s d t ++ ongoing s d t

/-- There is a cache for the task. -/
def Managed (s : DevicePool n) (d : Fin n) (t : ℤ) : Prop :=
  ((s.taskLayers d).manager? t).isSome

/-- The slices of a cache stay where they are, or one is taken for the request `r`. -/
inductive Move (s : DevicePool n) (r : ℕ) (s' : DevicePool n) (d : Fin n) (t : ℤ) : Prop where
  | same (hfree : free s' d t = free s d t) (hheld : (held s' d t).Perm (held s d t))
  | take (x : NpuMemoryCacheSlice) (hfree : free s d t = free s' d t ++ [x])
      (hheld : (held s' d t).Perm ((r, x) :: held s d t))

/-! ### Updates of the state -/

theorem taskLayers_setLayer (layer : TaskLayer) :
    (s.setLayer d layer).taskLayers d' = if d' = d then layer else s.taskLayers d' :=
  Function.update_apply ..

theorem request_setRequest (req : Request n) :
    (s.setRequest r req).request r' = if r' = r then req else s.request r' := by
  simp only [DevicePool.request, DevicePool.setRequest, SortedMap.find?_insert]
  split_ifs <;> rfl

theorem manager?_setManager (layer : TaskLayer) (t' : ℤ) (m : TaskNpuMemoryCacheManager) :
    (layer.setManager t' m).manager? t = if t = t' then some m else layer.manager? t := by
  simp only [TaskLayer.manager?, TaskLayer.setManager, SortedMap.find?_insert]

theorem free_of_manager {m : TaskNpuMemoryCacheManager}
    (h : (s.taskLayers d).manager? t = some m) : free s d t = m.npuMemoryCaches := by
  rw [free, h]
  rfl

/-- The slices of a cache are replaced. -/
theorem manager?_setLayer_setManager (m : TaskNpuMemoryCacheManager) :
    ((s.setLayer d' ((s.taskLayers d').setManager t' m)).taskLayers d).manager? t =
      if d = d' ∧ t = t' then some m else (s.taskLayers d).manager? t := by
  rw [taskLayers_setLayer]
  by_cases hd : d = d'
  · subst hd
    rw [if_pos rfl, manager?_setManager]
    simp
  · rw [if_neg hd, if_neg fun h => hd h.1]

theorem managed_setManager (m : TaskNpuMemoryCacheManager) (h : Managed s d t) :
    Managed (s.setLayer d' ((s.taskLayers d').setManager t' m)) d t := by
  rw [Managed, manager?_setLayer_setManager]
  split_ifs
  · rfl
  · exact h

theorem free_setManager (m : TaskNpuMemoryCacheManager) :
    free (s.setLayer d' ((s.taskLayers d').setManager t' m)) d t =
      if d = d' ∧ t = t' then m.npuMemoryCaches else free s d t := by
  rw [free, manager?_setLayer_setManager]
  split_ifs <;> rfl

theorem alloc_setManager (m : TaskNpuMemoryCacheManager) :
    alloc (s.setLayer d' ((s.taskLayers d').setManager t' m)) d r = alloc s d r := by
  rw [alloc, taskLayers_setLayer]
  split_ifs with hd
  · rw [hd]
    rfl
  · rfl

theorem type_setManager (m : TaskNpuMemoryCacheManager) :
    ((s.setLayer d' ((s.taskLayers d').setManager t' m)).taskLayers d).type =
      (s.taskLayers d).type := by
  rw [taskLayers_setLayer]
  split_ifs with hd
  · rw [hd]
    rfl
  · rfl

theorem alloc_enter {x : NpuMemoryCacheSlice} : alloc (s.enter cfg d' r x) d r' =
    if d = d' ∧ r' = r then some ⟨x, (s.request r).task.id⟩ else alloc s d r' := by
  rw [alloc, enter, taskLayers_setLayer]
  by_cases hd : d = d'
  · subst hd
    simp only [if_true, SortedMap.find?_insert, true_and]
    rfl
  · rw [if_neg hd, if_neg fun hc => hd hc.1]
    rfl

/-- The `_ioSlice` of the other requests. -/
def othersZeroCopy (s : DevicePool n) (r : ℕ) (d : Fin n) (t : ℤ) :
    List (ℕ × NpuMemoryCacheSlice) :=
  (s.requests.erase r).entries.filterMap (ioOf d t)

theorem filterMap_cons_perm {α β : Type*} {f : α → Option β} {l l' : List α} {a : α}
    (h : l.Perm (a :: l')) : (l.filterMap f).Perm ((f a).toList ++ l'.filterMap f) := by
  refine (h.filterMap f).trans ?_
  cases hf : f a <;> simp [hf]

theorem zeroCopy_perm (s : DevicePool n) (r : ℕ) :
    (zeroCopy s d t).Perm ((ioOf d t (r, s.request r)).toList ++ othersZeroCopy s r d t) := by
  cases hfind : s.requests.find? r with
  | none =>
    have hnew : s.request r = .new n := by rw [DevicePool.request, hfind]; rfl
    rw [hnew, othersZeroCopy, SortedMap.erase_of_find?_none hfind]
    exact List.Perm.refl _
  | some req =>
    have hreq : s.request r = req := by rw [DevicePool.request, hfind]; rfl
    rw [hreq]
    exact filterMap_cons_perm (SortedMap.find?_perm hfind)

theorem zeroCopy_setRequest (req : Request n) :
    (zeroCopy (s.setRequest r req) d t).Perm
      ((ioOf d t (r, req)).toList ++ othersZeroCopy s r d t) :=
  filterMap_cons_perm (SortedMap.insert_perm _ _ _)

/-- A request whose `_ioSlice` stays. -/
theorem zeroCopy_same {req : Request n} (h : ioOf d t (r, req) = ioOf d t (r, s.request r)) :
    (zeroCopy (s.setRequest r req) d t).Perm (zeroCopy s d t) := by
  refine (zeroCopy_setRequest req).trans ?_
  rw [h]
  exact (zeroCopy_perm s r).symm

theorem ongoing_insert {m m' : SortedMap ℕ OngoingCacheAllocation} {a : OngoingCacheAllocation}
    (hm : m' = m.insert r a) (hnone : m.find? r = none) :
    (m'.entries.filterMap (allocationOf t)).Perm
      ((allocationOf t (r, a)).toList ++ m.entries.filterMap (allocationOf t)) := by
  have hperm := SortedMap.insert_perm m r a
  rw [SortedMap.erase_of_find?_none hnone] at hperm
  rw [hm]
  exact filterMap_cons_perm hperm

/-! ### Steps that leave the slices alone -/

/-- Requests, caches, allocations and the kinds of the devices are the same. -/
structure SameHold (s s' : DevicePool n) : Prop where
  requests : s'.requests = s.requests
  caches : ∀ d, (s'.taskLayers d).tasks.taskNpuMemoryCaches =
    (s.taskLayers d).tasks.taskNpuMemoryCaches
  allocations : ∀ d, (s'.taskLayers d).ongoingInputAllocations =
    (s.taskLayers d).ongoingInputAllocations
  type : ∀ d, (s'.taskLayers d).type = (s.taskLayers d).type

namespace SameHold

theorem refl (s : DevicePool n) : SameHold s s := ⟨rfl, fun _ => rfl, fun _ => rfl, fun _ => rfl⟩

theorem trans (h : SameHold s s') (h' : SameHold s' s'') : SameHold s s'' :=
  ⟨h'.requests.trans h.requests, fun d => (h'.caches d).trans (h.caches d),
    fun d => (h'.allocations d).trans (h.allocations d), fun d => (h'.type d).trans (h.type d)⟩

theorem setLayer {layer : TaskLayer}
    (hcaches : layer.tasks.taskNpuMemoryCaches = (s.taskLayers d).tasks.taskNpuMemoryCaches)
    (hallocs : layer.ongoingInputAllocations = (s.taskLayers d).ongoingInputAllocations)
    (htype : layer.type = (s.taskLayers d).type) : SameHold s (s.setLayer d layer) := by
  refine ⟨rfl, fun d' => ?_, fun d' => ?_, fun d' => ?_⟩ <;> rw [taskLayers_setLayer] <;>
    split_ifs with hd
  · rw [hd, hcaches]
  · rfl
  · rw [hd, hallocs]
  · rfl
  · rw [hd, htype]
  · rfl

theorem callBack : SameHold s (s.callBack d r) := by
  obtain ⟨h₁, h₂, h₃, h₄⟩ : SameHold s (s.setLayer d
      { s.taskLayers d with load := (s.taskLayers d).load - 1 }) := setLayer rfl rfl rfl
  exact ⟨h₁, h₂, h₃, h₄⟩

theorem pick : SameHold s (s.pick d r) := by
  obtain ⟨h₁, h₂, h₃, h₄⟩ : SameHold s (s.setLayer d
      { s.taskLayers d with load := (s.taskLayers d).load + 1 }) := setLayer rfl rfl rfl
  exact ⟨h₁, h₂, h₃, h₄⟩

theorem block : SameHold s (s.block d) := setLayer rfl rfl rfl

theorem validateLoad : SameHold s (s.validateLoad cfg d) := by
  rw [DevicePool.validateLoad]
  split_ifs
  · exact setLayer rfl rfl rfl
  · exact refl s

theorem peekInference : SameHold s (s.setLayer d ((s.taskLayers d).peekInference r).1) := by
  rw [TaskLayer.peekInference]
  split <;> exact setLayer rfl rfl rfl

theorem eraseOngoing : SameHold s (s.eraseOngoing d r) := setLayer rfl rfl rfl

theorem request (h : SameHold s s') (r : ℕ) : s'.request r = s.request r := by
  rw [DevicePool.request, DevicePool.request, h.requests]

theorem alloc (h : SameHold s s') (d : Fin n) (r : ℕ) :
    Pipeline.alloc s' d r = Pipeline.alloc s d r := by
  rw [Pipeline.alloc, Pipeline.alloc, h.allocations]

theorem manager? (h : SameHold s s') (d : Fin n) (t : ℤ) :
    (s'.taskLayers d).manager? t = (s.taskLayers d).manager? t := by
  rw [TaskLayer.manager?, TaskLayer.manager?, h.caches]

theorem managed (h : SameHold s s') (hm : Managed s d t) : Managed s' d t := by
  rw [Managed, h.manager?]
  exact hm

theorem free (h : SameHold s s') (d : Fin n) (t : ℤ) : Pipeline.free s' d t = Pipeline.free s d t := by
  rw [Pipeline.free, Pipeline.free, h.manager?]

theorem zeroCopy (h : SameHold s s') (d : Fin n) (t : ℤ) :
    Pipeline.zeroCopy s' d t = Pipeline.zeroCopy s d t := by
  rw [Pipeline.zeroCopy, Pipeline.zeroCopy, h.requests]

theorem ongoing (h : SameHold s s') (d : Fin n) (t : ℤ) :
    Pipeline.ongoing s' d t = Pipeline.ongoing s d t := by
  rw [Pipeline.ongoing, Pipeline.ongoing, h.allocations]

theorem held (h : SameHold s s') (d : Fin n) (t : ℤ) :
    Pipeline.held s' d t = Pipeline.held s d t := by
  rw [Pipeline.held, Pipeline.held, h.zeroCopy, h.ongoing]

theorem move (h : SameHold s s') : Move s r s' d t :=
  .same (h.free d t) (by rw [h.held])

end SameHold

/-- After a move, a step that leaves the slices alone. -/
theorem Move.after (h : Move s r s' d t) (hsame : SameHold s' s'') : Move s r s'' d t := by
  cases h with
  | same hfree hheld => exact .same ((hsame.free d t).trans hfree) (by rwa [hsame.held])
  | take x hfree hheld => exact .take x (by rwa [hsame.free]) (by rwa [hsame.held])

/-! ### A slice is taken -/

theorem npuMemoryCaches_of_get {m rest : TaskNpuMemoryCacheManager} {x : NpuMemoryCacheSlice}
    (h : m.getNpuMemoryCache = some (x, rest)) : m.npuMemoryCaches = rest.npuMemoryCaches ++ [x] := by
  obtain ⟨y, hlast, heq⟩ := Option.map_eq_some_iff.mp h
  obtain ⟨rfl, rfl⟩ := Prod.mk.inj heq
  exact (List.dropLast_append_getLast? y hlast).symm

/-- `PrepareZeroCopyIo` does not get a slice that is not valid. -/
def ZeroCopyValid (cfg : Config) (s : DevicePool n) (d : Fin n) (r : ℕ) : Prop :=
  (s.taskLayers d).type = .std ∨ cfg.runOnService = false ∨ (s.request r).task.isNormal = false ∨
    (s.taskLayers d).tasks.taskStaticConfigs.contains (s.request r).task.id = false ∨
    ∀ p ∈ ((s.taskLayers d).manager? (s.request r).task.id).bind
      TaskNpuMemoryCacheManager.getNpuMemoryCache, p.1.isValid = true

instance (cfg : Config) (s : DevicePool n) (d : Fin n) (r : ℕ) :
    Decidable (ZeroCopyValid cfg s d r) :=
  inferInstanceAs (Decidable (_ ∨ _ ∨ _ ∨ _ ∨ _))

/-- Nothing is taken, or a valid slice of the task's cache, which is put back or becomes the
    `_ioSlice` of the request. -/
theorem zeroCopy_cases (hvalid : ZeroCopyValid cfg s d r)
    (h : s.prepareZeroCopyIo cfg d r = some s') :
    s' = s ∨ (s.taskLayers d).type = .acc ∧ ∃ m x rest,
      (s.taskLayers d).manager? (s.request r).task.id = some m ∧
      m.getNpuMemoryCache = some (x, rest) ∧
      (s' = s.setLayer d ((s.taskLayers d).setManager (s.request r).task.id
          (rest.returnNpuMemoryCache x)) ∨
        s' = (s.setLayer d ((s.taskLayers d).setManager (s.request r).task.id rest)).setRequest r
          { s.request r with ioSlice := some (d, x) }) := by
  rcases prepareZeroCopyIo_cases h with rfl | ⟨m, x, rest, hm, hget, hcases⟩
  · exact Or.inl rfl
  simp only [prepareZeroCopyIo] at h
  by_cases hskip : (s.taskLayers d).type = .std ∨ cfg.runOnService = false ∨
      (s.request r).task.isNormal = false
  · rw [if_pos hskip] at h
    exact Or.inl (Option.some.inj h).symm
  rw [if_neg hskip] at h
  simp only [not_or] at hskip
  have htype : (s.taskLayers d).type = .acc := by
    cases hd : (s.taskLayers d).type with
    | acc => rfl
    | std => exact absurd hd hskip.1
  by_cases hconfig :
      (s.taskLayers d).tasks.taskStaticConfigs.contains (s.request r).task.id = false
  · simp only [hm, if_pos hconfig] at h
    exact Or.inl (Option.some.inj h).symm
  have hx : x.isValid = true := by
    have hall := hvalid.resolve_left hskip.1 |>.resolve_left hskip.2.1
      |>.resolve_left hskip.2.2 |>.resolve_left hconfig
    exact hall (x, rest) (by rw [hm, Option.bind_some, hget]; exact rfl)
  refine Or.inr ⟨htype, m, x, rest, hm, hget, ?_⟩
  rcases hcases with ⟨hbad, _⟩ | ⟨_, heq⟩ | ⟨_, heq⟩
  · rw [hx] at hbad
    cases hbad
  · exact Or.inl heq
  · exact Or.inr heq

theorem ioOf_none {req : Request n} (h : req.ioSlice = none) : ioOf d t (r, req) = none := by
  rw [ioOf, h, Option.bind_none]

theorem ioOf_some {req : Request n} {x : NpuMemoryCacheSlice} (h : req.ioSlice = some (d', x)) :
    (ioOf d t (r, req)).toList = if d = d' ∧ t = req.task.id then [(r, x)] else [] := by
  rw [ioOf, h, Option.bind_some]
  by_cases hc : d' = d ∧ req.task.id = t
  · rw [if_pos hc, if_pos ⟨hc.1.symm, hc.2.symm⟩]
    rfl
  · rw [if_neg hc, if_neg fun hc' => hc ⟨hc'.1.symm, hc'.2.symm⟩]
    rfl

variable (d' t') in
/-- A slice that leaves the free list of one cache. -/
theorem move_of_take (x : NpuMemoryCacheSlice)
    (hfree : ∀ d t, free s d t = free s' d t ++ if d = d' ∧ t = t' then [x] else [])
    (hheld : ∀ d t, (held s' d t).Perm ((if d = d' ∧ t = t' then [(r, x)] else []) ++ held s d t)) :
    Move s r s' d t := by
  by_cases hc : d = d' ∧ t = t'
  · refine .take x ?_ ?_
    · rw [hfree d t, if_pos hc]
    · have h := hheld d t
      rwa [if_pos hc] at h
  · refine .same ?_ ?_
    · rw [hfree d t, if_neg hc, List.append_nil]
    · have h := hheld d t
      rwa [if_neg hc] at h

theorem free_take {m rest : TaskNpuMemoryCacheManager} {x : NpuMemoryCacheSlice}
    (hm : (s.taskLayers d').manager? t' = some m) (hget : m.getNpuMemoryCache = some (x, rest)) :
    free s d t = free (s.setLayer d' ((s.taskLayers d').setManager t' rest)) d t ++
      if d = d' ∧ t = t' then [x] else [] := by
  rw [free_setManager]
  by_cases hc : d = d' ∧ t = t'
  · obtain ⟨rfl, rfl⟩ := hc
    simp only [and_self, if_true]
    rw [free_of_manager hm, npuMemoryCaches_of_get hget]
  · rw [if_neg hc, if_neg hc, List.append_nil]

theorem ongoing_setManager (m : TaskNpuMemoryCacheManager) :
    ongoing (s.setLayer d' ((s.taskLayers d').setManager t' m)) d t = ongoing s d t := by
  rw [ongoing, ongoing, taskLayers_setLayer]
  split_ifs with hd
  · rw [hd]
    rfl
  · rfl

theorem move_prepareZeroCopyIo (hvalid : ZeroCopyValid cfg s d r)
    (hnone : (s.request r).ioSlice = none) (h : s.prepareZeroCopyIo cfg d r = some s') :
    Move s r s' d' t' := by
  rcases zeroCopy_cases hvalid h with rfl | ⟨_, m, x, rest, hm, hget, rfl | rfl⟩
  · exact (SameHold.refl s').move
  · -- the slice goes back to where it was
    refine .same ?_ ?_
    · rw [free_setManager]
      split_ifs with hc
      · obtain ⟨rfl, rfl⟩ := hc
        rw [free_of_manager hm, npuMemoryCaches_of_get hget]
        rfl
      · rfl
    · rw [held, held, ongoing_setManager]
      exact List.Perm.refl _
  · refine move_of_take d (s.request r).task.id x
      (fun _ _ => free_take hm hget) fun d₁ t₁ => ?_
    have hongoing : ∀ req, ongoing ((s.setLayer d ((s.taskLayers d).setManager
        (s.request r).task.id rest)).setRequest r req) d₁ t₁ = ongoing s d₁ t₁ :=
      fun _ => ongoing_setManager rest
    rw [held, held, hongoing, ← List.append_assoc]
    refine List.Perm.append_right _ ((zeroCopy_setRequest _).trans ?_)
    rw [ioOf_some (x := x) rfl]
    have hbefore := zeroCopy_perm s r (d := d₁) (t := t₁)
    rw [ioOf_none hnone, Option.toList_none, List.nil_append] at hbefore
    exact hbefore.symm.append_left _

/-! ### A slice becomes an allocation -/

theorem free_enter {x : NpuMemoryCacheSlice} :
    free (s.enter cfg d' r x) d t = free s d t := by
  rw [free, free, enter, taskLayers_setLayer]
  split_ifs with hd
  · rw [hd]
    rfl
  · rfl

variable (cfg) in
theorem ongoing_enter {x : NpuMemoryCacheSlice} (hnone : alloc s d' r = none) :
    (ongoing (s.enter cfg d' r x) d t).Perm
      ((if d = d' ∧ t = (s.request r).task.id then [(r, x)] else []) ++ ongoing s d t) := by
  rw [ongoing, ongoing, enter, taskLayers_setLayer]
  by_cases hd : d = d'
  · subst hd
    rw [if_pos rfl]
    refine (ongoing_insert rfl hnone).trans (List.Perm.append_right _ ?_)
    rw [allocationOf]
    by_cases ht : t = (s.request r).task.id
    · rw [if_pos ht.symm, if_pos ⟨rfl, ht⟩]
      exact List.Perm.refl _
    · rw [if_neg (Ne.symm ht), if_neg fun hc => ht hc.2]
      exact List.Perm.refl _
  · rw [if_neg hd, if_neg fun hc => hd hc.1]
    exact List.Perm.refl _

/-- The slice of a request leaves `_ioSlice`, or the free list, or is one of no cache; then it is
    entered. -/
theorem move_enter {x : NpuMemoryCacheSlice} (hmanaged : Managed s d' t')
    (hio : ∀ p ∈ (s.request r).ioSlice, p.1 = d) (hnone : alloc s d r = none)
    (h : s.cacheSlice e d r = some (x, s')) : Move s r (s'.enter cfg d r x) d' t' := by
  rcases cacheSlice_cases h with ⟨d₁, hsome, rfl⟩ | ⟨_, ⟨hm, rfl⟩ | ⟨m, rest, hm, hget, rfl⟩⟩
  · obtain rfl : d₁ = d := hio _ hsome
    refine .same free_enter ?_
    have hbefore := zeroCopy_perm s r (d := d') (t := t')
    have hafter := zeroCopy_setRequest (s := s) (r := r) (d := d') (t := t')
      { s.request r with ioSlice := none }
    rw [ioOf_some hsome] at hbefore
    rw [ioOf_none rfl, Option.toList_none, List.nil_append] at hafter
    have hentered := ongoing_enter cfg (x := x) (d := d') (t := t')
      (s := s.setRequest r { s.request r with ioSlice := none }) (r := r) hnone
    rw [request_setRequest, if_pos rfl] at hentered
    refine (hafter.append hentered).trans ?_
    rw [← List.append_assoc]
    refine List.Perm.append_right _ (List.perm_append_comm.trans hbefore.symm)
  · -- there is no cache for the task of the request
    have hother : ¬ (d' = d ∧ t' = (s'.request r).task.id) := by
      rintro ⟨rfl, rfl⟩
      rw [Managed, hm] at hmanaged
      cases hmanaged
    refine .same free_enter ?_
    have hentered := ongoing_enter cfg (x := x) (d := d') (t := t') hnone
    rw [if_neg hother, List.nil_append] at hentered
    exact hentered.append_left _
  · refine move_of_take d (s.request r).task.id x
      (fun d₁ t₁ => by rw [free_enter]; exact free_take hm hget) fun d₁ t₁ => ?_
    have hnone' : alloc (s.setLayer d ((s.taskLayers d).setManager (s.request r).task.id rest)) d r =
        none := by
      rw [alloc, taskLayers_setLayer, if_pos rfl]
      exact hnone
    have hentered := ongoing_enter cfg (x := x) (d := d₁) (t := t₁) hnone'
    rw [ongoing_setManager] at hentered
    refine (hentered.append_left (zeroCopy s d₁ t₁)).trans ?_
    rw [held, ← List.append_assoc, ← List.append_assoc]
    exact List.perm_append_comm.append_right _

/-- Without a cache for its task a request has nothing to lose. -/
theorem move_dropped {x : NpuMemoryCacheSlice} (hmanaged : Managed s d' t')
    (hunmanaged : ¬ Managed s d (s.request r).task.id)
    (hio : ∀ p ∈ (s.request r).ioSlice, p.1 = d)
    (h : s.cacheSlice e d r = some (x, s')) : Move s r s' d' t' := by
  rcases cacheSlice_cases h with ⟨d₁, hsome, rfl⟩ | ⟨_, ⟨_, rfl⟩ | ⟨m, rest, hm, _, _⟩⟩
  · obtain rfl : d₁ = d := hio _ hsome
    have hother : ¬ (d' = d₁ ∧ t' = (s.request r).task.id) := by
      rintro ⟨rfl, rfl⟩
      exact hunmanaged hmanaged
    refine .same rfl (List.Perm.append_right _ ?_)
    have hbefore := zeroCopy_perm s r (d := d') (t := t')
    rw [ioOf_some hsome, if_neg hother] at hbefore
    refine (zeroCopy_setRequest _).trans (.trans ?_ hbefore.symm)
    rw [ioOf_none rfl]
    exact List.Perm.refl _
  · exact (SameHold.refl s').move
  · exact absurd (by rw [Managed, hm]; rfl) hunmanaged

/-! ### A slice is given back -/

theorem managed_release (h : Managed s d t) :
    Managed (s.setLayer d' ((s.taskLayers d').releaseInferenceCache r)) d t := by
  rw [Managed, taskLayers_setLayer]
  split_ifs with hd
  · subst hd
    rw [TaskLayer.releaseInferenceCache]
    split
    · exact h
    · rw [TaskLayer.deallocateNpuBuf]
      split
      · rw [manager?_setManager]
        split_ifs
        · rfl
        · exact h
      · exact h
  · exact h

/-- What `ReleaseInferenceCache` does to the allocations. -/
theorem alloc_release : alloc (s.setLayer d' ((s.taskLayers d').releaseInferenceCache r)) d r' =
    if d = d' ∧ r' = r then none else alloc s d r' := by
  rw [alloc, taskLayers_setLayer]
  by_cases hd : d = d'
  · subst hd
    rw [if_pos rfl, TaskLayer.releaseInferenceCache]
    cases hfind : (s.taskLayers d).ongoingInputAllocations.find? r with
    | none =>
      by_cases hr : r' = r
      · rw [hr, if_pos ⟨rfl, rfl⟩]
        exact hfind
      · rw [if_neg fun hc => hr hc.2]
        rfl
    | some a =>
      have herase : ({ s.taskLayers d with
          ongoingInputAllocations := (s.taskLayers d).ongoingInputAllocations.erase r }.deallocateNpuBuf
            a.slice a.taskId).ongoingInputAllocations =
          (s.taskLayers d).ongoingInputAllocations.erase r := by
        rw [TaskLayer.deallocateNpuBuf]
        split <;> rfl
      simp only [herase, SortedMap.find?_erase, true_and]
      rfl
  · rw [if_neg hd, if_neg fun hc => hd hc.1]
    rfl

theorem type_release : ((s.setLayer d' ((s.taskLayers d').releaseInferenceCache r)).taskLayers d).type =
    (s.taskLayers d).type := by
  rw [taskLayers_setLayer]
  split_ifs with hd
  · subst hd
    rw [TaskLayer.releaseInferenceCache]
    split
    · rfl
    · rw [TaskLayer.deallocateNpuBuf]
      split <;> rfl
  · rfl

/-- What `ReleaseInferenceCache` of the device `d'` gives back to a cache. -/
def back (s : DevicePool n) (d' : Fin n) (r : ℕ) (d : Fin n) (t : ℤ) :
    List (ℕ × NpuMemoryCacheSlice) :=
  if d = d' then ((alloc s d r).bind fun a => allocationOf t (r, a)).toList else []

theorem back_of_none (h : alloc s d r = none) : back s d' r d t = [] := by
  rw [back, h]
  split_ifs <;> rfl

theorem back_of_some {a : OngoingCacheAllocation} (h : alloc s d r = some a) :
    back s d r d t = if a.taskId = t then [(r, a.slice)] else [] := by
  rw [back, if_pos rfl, h, Option.bind_some, allocationOf]
  split_ifs <;> rfl

theorem free_release (hmanaged : Managed s d t) :
    free (s.setLayer d' ((s.taskLayers d').releaseInferenceCache r)) d t =
      free s d t ++ (back s d' r d t).map Prod.snd := by
  by_cases hd : d = d'
  · subst hd
    rw [free, taskLayers_setLayer, if_pos rfl, TaskLayer.releaseInferenceCache]
    cases hfind : (s.taskLayers d).ongoingInputAllocations.find? r with
    | none =>
      rw [back_of_none hfind, List.map_nil, List.append_nil]
      rfl
    | some a =>
      rw [back_of_some hfind]
      simp only [TaskLayer.deallocateNpuBuf]
      by_cases ht : a.taskId = t
      · obtain ⟨m, hm⟩ := Option.isSome_iff_exists.mp hmanaged
        have hm' : ({ s.taskLayers d with
            ongoingInputAllocations :=
              (s.taskLayers d).ongoingInputAllocations.erase r } : TaskLayer).manager? a.taskId =
            some m := ht ▸ hm
        rw [hm', if_pos ht, manager?_setManager, if_pos ht.symm, free_of_manager hm]
        rfl
      · rw [if_neg ht, List.map_nil, List.append_nil]
        split
        · rw [manager?_setManager, if_neg (Ne.symm ht)]
          rfl
        · rfl
  · rw [free, taskLayers_setLayer, if_neg hd, back, if_neg hd, List.map_nil, List.append_nil]
    rfl

theorem ongoing_release : (ongoing s d t).Perm (back s d' r d t ++
    ongoing (s.setLayer d' ((s.taskLayers d').releaseInferenceCache r)) d t) := by
  by_cases hd : d = d'
  · subst hd
    rw [ongoing, ongoing, taskLayers_setLayer, if_pos rfl, TaskLayer.releaseInferenceCache]
    cases hfind : (s.taskLayers d).ongoingInputAllocations.find? r with
    | none =>
      rw [back_of_none hfind]
      exact List.Perm.refl _
    | some a =>
      have hback : back s d r d t = (allocationOf t (r, a)).toList := by
        rw [back_of_some hfind, allocationOf]
        split_ifs <;> rfl
      have herase : ({ s.taskLayers d with
          ongoingInputAllocations := (s.taskLayers d).ongoingInputAllocations.erase r }.deallocateNpuBuf
            a.slice a.taskId).ongoingInputAllocations =
          (s.taskLayers d).ongoingInputAllocations.erase r := by
        rw [TaskLayer.deallocateNpuBuf]
        split <;> rfl
      simp only [hback, herase]
      exact filterMap_cons_perm (SortedMap.find?_perm hfind)
  · rw [ongoing, ongoing, taskLayers_setLayer, if_neg hd, back, if_neg hd]
    exact List.Perm.refl _

end DxRt.Pipeline
