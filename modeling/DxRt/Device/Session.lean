import DxRt.Device.Balance
import DxRt.Lib.Run

/-! Sessions: any sequence of `RegisterTask` and `Release` on one device.

    A session keeps, beside the device and its service layer, which blocks every successful
    registration has added to the pool. It is balanced when `Release` takes away exactly these
    blocks, a registration that fails takes nothing, and the pool is the one of the beginning when
    nothing is registered. Every session is balanced in which the layer keeps its books. -/

namespace DxRt
open Memory HandleTable Program Holding AccDeviceTaskLayer

/-- The device, the layer with its record of block ids, and the blocks reserved for each task. -/
structure Session (σ : Type) where
  dev : AccDeviceTaskLayer
  layer : σ × List (ℤ × ℤ)
  reserved : SortedMap ℤ (List (ℕ × ℕ))

namespace Session
variable {σ : Type}

def init (layer : σ) : Session σ := ⟨.init, (layer, []), .empty⟩

/-- The calls on the device, each with what its environment will say. -/
inductive Op where
  | registerTask (task : TaskData) (e : ℕ → Surroundings)
  | release (taskId : ℤ) (e : ℕ → Surroundings)

section Runs
variable (m : Component LayerCall LayerCall.Ans σ Surroundings) (pool : σ → Memory)
  (harmless : σ → LayerCall → Surroundings → Prop) (void : σ → SharedMemoryInfo → Prop)

def exec (s : Session σ) : Op → Session σ × Outcome
  | .registerTask task e =>
    match (s.dev.registerTask task).run (m.withHistory note) e s.layer with
    | (layer, dev, outcome) =>
      (⟨dev, layer, if outcome = .returned 0 then
          s.reserved.insert task.id ((pool layer.1).blocks.diff (pool s.layer.1).blocks)
        else s.reserved⟩, outcome)
  | .release taskId e =>
    match (s.dev.release taskId).run (m.withHistory note) e s.layer with
    | (layer, dev) => (⟨dev, layer, s.reserved.erase taskId⟩, .returned 0)

/-- What keeps a call from spoiling the books: a task is not registered twice, and the environment
    does nothing at any call of the service layer that the layer or the device cannot undo. -/
def Permitted (s : Session σ) : Op → Prop
  | .registerTask task e => s.dev.taskStaticConfigs.find? task.id = none ∧
      (s.dev.registerTask task).Permits (m.withHistory note) (registerOk harmless) e s.layer
  | .release taskId e =>
      (s.dev.release taskId).Permits (m.withHistory note) (releaseOk harmless void taskId) e s.layer

/-- A permitted call after which the process is still there. -/
def Step (s s' : Session σ) : Prop :=
  ∃ op, s.Permitted m harmless void op ∧ (s.exec m pool op).2 ≠ .aborted ∧
    (s.exec m pool op).1 = s'

/-- What one call does to the pool. -/
def CallBalanced (s : Session σ) : Op → Session σ × Outcome → Prop
  | .registerTask _ _, (s', outcome) =>
    outcome = .returned 0 ∨ outcome = .aborted ∨ pool s'.layer.1 = pool s.layer.1
  | .release taskId _, (s', _) =>
    match s.reserved.find? taskId with
    | some blocks => (pool s.layer.1).blocks.Perm (blocks ++ (pool s'.layer.1).blocks)
    | none => pool s'.layer.1 = pool s.layer.1

/-- Every permitted call does to the pool what it should, and with nothing reserved the pool is
    the one of the beginning. -/
structure Balanced (base : Memory) (s : Session σ) : Prop where
  call : ∀ op, s.Permitted m harmless void op → s.CallBalanced pool op (s.exec m pool op)
  restored : (∀ t, s.reserved.find? t = none) → pool s.layer.1 = base

end Runs

/-! ### The invariant -/

section Invariant
variable {m : Component LayerCall LayerCall.Ans σ Surroundings} {pool : σ → Memory}
  {harmless : σ → LayerCall → Surroundings → Prop} {void : σ → SharedMemoryInfo → Prop}
  {L : Ledger m pool harmless void} {base : Memory} {s s' : Session σ}

/-- The holdings of one task. -/
def ofTask (held : List Holding) (t : ℤ) : List Holding := held.filter fun h => h.taskId = t

/-- What the device records of a task that holds `own`, and what the session has noted for it. -/
def TaskInv (dev : AccDeviceTaskLayer) (t : ℤ) (own : List Holding) :
    Option (List (ℕ × ℕ)) → Prop
  | some blocks => dev.taskStaticConfigs.contains t = true ∧ dev.Recorded t ∧
      (own.map Holding.blockId).Perm (dev.blockIds t) ∧ (blocksOf own).Perm blocks
  | none => dev.taskStaticConfigs.find? t = none ∧ dev.Clear t ∧ own = []

variable (L base s) in
structure Inv (held : List Holding) : Prop where
  holds : L.Holds base held s.layer.1
  record : ∀ e, e ∈ s.layer.2 ↔ e ∈ held.map fun h => (h.taskId, h.blockId)
  tasks : ∀ t, TaskInv s.dev t (ofTask held t) (s.reserved.find? t)

theorem ofTask_own {own others : List Holding} {t : ℤ} (hown : ∀ h ∈ own, h.taskId = t)
    (hothers : ∀ h ∈ others, h.taskId ≠ t) : ofTask (own ++ others) t = own := by
  rw [ofTask, List.filter_append, List.filter_eq_self.mpr (by simpa using hown),
    List.filter_eq_nil_iff.mpr (by simpa using hothers), List.append_nil]

theorem ofTask_others {own others : List Holding} {t t' : ℤ} (hown : ∀ h ∈ own, h.taskId = t)
    (ht : t' ≠ t) : ofTask (own ++ others) t' = ofTask others t' := by
  rw [ofTask, List.filter_append, List.filter_eq_nil_iff.mpr, List.nil_append, ofTask]
  intro h hh
  rw [hown h hh]
  simpa using ht.symm

/-- The holdings apart from those of one task. -/
def withoutTask (held : List Holding) (t : ℤ) : List Holding := held.filter fun h => ¬ h.taskId = t

theorem ofTask_withoutTask (held : List Holding) {t t' : ℤ} (ht : t' ≠ t) :
    ofTask (withoutTask held t) t' = ofTask held t' := by
  rw [ofTask, ofTask, withoutTask, List.filter_filter]
  refine List.filter_congr fun h _ => ?_
  by_cases heq : h.taskId = t' <;> simp [heq, ht]

theorem split_perm (held : List Holding) (t : ℤ) :
    held.Perm (ofTask held t ++ withoutTask held t) := by
  refine (List.filter_append_perm (fun h : Holding => decide (h.taskId = t)) held).symm.trans ?_
  simp [ofTask, withoutTask]

/-- A task is owed what it holds. -/
theorem Inv.owes {held : List Holding} (h : Inv L base s held) {t : ℤ} {ids : List ℤ}
    (hids : ((ofTask held t).map Holding.blockId).Perm ids) :
    L.Owes base t ids (withoutTask held t) s.layer where
  holds := by
    refine ⟨ofTask held t, hids, fun h hh => ?_, L.perm h.holds (split_perm held t), fun e => ?_⟩
    · simpa using (List.mem_filter.mp hh).2
    · rw [h.record e, ((split_perm held t).map _).mem_iff]
  others h hh := by simpa using (List.mem_filter.mp hh).2

/-- For the other tasks nothing changes. -/
theorem TaskInv.other {dev dev' : AccDeviceTaskLayer} {t t' : ℤ} {own : List Holding}
    {noted : Option (List (ℕ × ℕ))} (h : TaskInv dev t' own noted) (hframe : Frame t dev dev')
    (ht : t' ≠ t) : TaskInv dev' t' own noted := by
  obtain ⟨hids, hrec, hclear⟩ := hframe.other ht
  cases noted with
  | some blocks =>
    obtain ⟨hconfig, hrecorded, hown, hblocks⟩ := h
    refine ⟨?_, hrec.mpr hrecorded, hids ▸ hown, hblocks⟩
    rw [SortedMap.contains, hframe.configs t' ht]
    exact hconfig
  | none =>
    obtain ⟨hconfig, hclear', hown⟩ := h
    exact ⟨(hframe.configs t' ht).trans hconfig, hclear.mpr hclear', hown⟩

/-- After a call for the task `t`: what it is owed now, and everything else as before. -/
theorem Inv.reassemble {held : List Holding} (h : Inv L base s held) {t : ℤ} {ids : List ℤ}
    {dev : AccDeviceTaskLayer} {layer : σ × List (ℤ × ℤ)}
    {reserved : SortedMap ℤ (List (ℕ × ℕ))}
    (howes : L.Owes base t ids (withoutTask held t) layer) (hframe : Frame t s.dev dev)
    (hreserved : ∀ t', t' ≠ t → reserved.find? t' = s.reserved.find? t')
    (hown : ∀ own : List Holding, (own.map Holding.blockId).Perm ids →
      Accounts base (own ++ withoutTask held t) (pool layer.1) →
      TaskInv dev t own (reserved.find? t)) :
    ∃ held', Inv L base ⟨dev, layer, reserved⟩ held' := by
  obtain ⟨⟨own, hids, htask, hholds, hnote⟩, hothers⟩ := howes
  refine ⟨own ++ withoutTask held t, hholds, hnote, fun t' => ?_⟩
  by_cases ht : t' = t
  · subst ht
    rw [ofTask_own htask hothers]
    exact hown own hids (L.accounts hholds)
  · rw [ofTask_others htask ht, ofTask_withoutTask held ht]
    change TaskInv dev t' _ (reserved.find? t')
    rw [hreserved t' ht]
    exact (h.tasks t').other hframe ht

/-- The pool of a task that is owed nothing consists of what the others hold. -/
theorem owes_nil_accounts {t : ℤ} {others : List Holding} {layer : σ × List (ℤ × ℤ)}
    (h : L.Owes base t [] others layer) : Accounts base others (pool layer.1) := by
  obtain ⟨⟨own, hids, _, hholds, _⟩, _⟩ := h
  have hnil : own = [] := List.map_eq_nil_iff.mp hids.eq_nil
  subst hnil
  exact L.accounts hholds

/-- What a task holds is what the pool has beside the holdings of the others. -/
theorem split_blocks {own others : List Holding} {mem mem' : Memory}
    (h : Accounts base (own ++ others) mem) (h' : Accounts base others mem') :
    mem.blocks.Perm (blocksOf own ++ mem'.blocks) := by
  have hsplit : blocksOf (own ++ others) = blocksOf own ++ blocksOf others :=
    List.filterMap_append
  calc mem.blocks
      |>.Perm (base.blocks ++ (blocksOf own ++ blocksOf others)) := hsplit ▸ h.blocks
    _ |>.Perm (blocksOf own ++ (base.blocks ++ blocksOf others)) := List.perm_append_comm_assoc ..
    _ |>.Perm (blocksOf own ++ mem'.blocks) := h'.blocks.symm.append_left _

theorem added_blocks {own others : List Holding} {mem mem' : Memory}
    (h : Accounts base (own ++ others) mem) (h' : Accounts base others mem') :
    (mem.blocks.diff mem'.blocks).Perm (blocksOf own) := by
  refine ((split_blocks h h').diff_right _).trans (List.perm_iff_count.mpr fun b => ?_)
  rw [List.count_diff, List.count_append, Nat.add_sub_cancel]

theorem Inv.registerTask {held : List Holding} (h : Inv L base s held) {task : TaskData}
    {e : ℕ → Surroundings} (hp : s.Permitted m harmless void (.registerTask task e)) :
    s.CallBalanced pool (.registerTask task e) (s.exec m pool (.registerTask task e)) ∧
      ((s.exec m pool (.registerTask task e)).2 ≠ .aborted →
        ∃ held', Inv L base (s.exec m pool (.registerTask task e)).1 held') := by
  obtain ⟨hconfig, hpermits⟩ := hp
  -- the task is not registered, so nothing is held for it
  have htask := h.tasks task.id
  cases hnoted : s.reserved.find? task.id with
  | some blocks =>
    rw [hnoted] at htask
    have hcontains := htask.1
    rw [SortedMap.contains, hconfig] at hcontains
    cases hcontains
  | none =>
    rw [hnoted] at htask
    obtain ⟨_, hclear, hnone⟩ := htask
    have howes : L.Owes base task.id [] (withoutTask held task.id) s.layer :=
      h.owes (by rw [hnone]; exact List.Perm.refl _)
    have hbefore := owes_nil_accounts howes
    have hwp := howes.wp_registerTask hclear hconfig
      (Q := fun r layer => s.CallBalanced pool (.registerTask task e)
          (⟨r.1, layer, if r.2 = .returned 0 then s.reserved.insert task.id
            ((pool layer.1).blocks.diff (pool s.layer.1).blocks) else s.reserved⟩, r.2) ∧
        (r.2 ≠ .aborted → ∃ held', Inv L base ⟨r.1, layer, if r.2 = .returned 0 then
          s.reserved.insert task.id ((pool layer.1).blocks.diff (pool s.layer.1).blocks)
            else s.reserved⟩ held'))
      ?_ ?_ ?_
    · exact wp_sound hwp hpermits
    · intro dev' layer'
      exact ⟨Or.inr (Or.inl rfl), fun hne => absurd rfl hne⟩
    · intro dev' layer' hframe hconfig' hrec howes'
      refine ⟨Or.inl rfl, fun _ => h.reassemble howes' hframe (fun t' ht => ?_)
        fun own hids haccounts => ?_⟩
      · simp [SortedMap.find?_insert, ht]
      · simp only [if_true, SortedMap.find?_insert]
        exact ⟨hconfig', hrec, hids, (added_blocks haccounts hbefore).symm⟩
    · intro dev' outcome layer' hne hframe hconfig' hclear' howes'
      refine ⟨Or.inr (Or.inr ((owes_nil_accounts howes').unique hbefore)), fun _ => ?_⟩
      simp only [if_neg hne]
      refine h.reassemble howes' hframe (fun _ _ => rfl) fun own hids _ => ?_
      rw [hnoted]
      exact ⟨hconfig', hclear', List.map_eq_nil_iff.mp hids.eq_nil⟩

theorem Inv.release {held : List Holding} (h : Inv L base s held) {t : ℤ}
    {e : ℕ → Surroundings} (hp : s.Permitted m harmless void (.release t e)) :
    s.CallBalanced pool (.release t e) (s.exec m pool (.release t e)) ∧
      ∃ held', Inv L base (s.exec m pool (.release t e)).1 held' := by
  have hbefore : Accounts base (ofTask held t ++ withoutTask held t) (pool s.layer.1) :=
    (L.accounts h.holds).perm (split_perm held t)
  have htask := h.tasks t
  -- what the device records of the task is what the task is owed
  have hids : ((ofTask held t).map Holding.blockId).Perm (s.dev.blockIds t) ∧ s.dev.Recorded t ∨
      ofTask held t = [] ∧ s.dev.Clear t := by
    cases hnoted : s.reserved.find? t with
    | some blocks =>
      rw [hnoted] at htask
      exact Or.inl ⟨htask.2.2.1, htask.2.1⟩
    | none =>
      rw [hnoted] at htask
      exact Or.inr ⟨htask.2.2, htask.2.1⟩
  have howes : ∃ ids, L.Owes base t ids (withoutTask held t) s.layer ∧
      (ids = s.dev.blockIds t ∧ s.dev.Recorded t ∨ ids = [] ∧ s.dev.Clear t) := by
    rcases hids with ⟨hperm, hrec⟩ | ⟨hnil, hclear⟩
    · exact ⟨_, h.owes hperm, Or.inl ⟨rfl, hrec⟩⟩
    · exact ⟨_, h.owes (by rw [hnil]; exact List.Perm.refl _), Or.inr ⟨rfl, hclear⟩⟩
  obtain ⟨ids, howes, hids⟩ := howes
  have hwp := howes.wp_releaseTask hids
    (Q := fun dev layer => s.CallBalanced pool (.release t e)
        (⟨dev, layer, s.reserved.erase t⟩, .returned 0) ∧
      ∃ held', Inv L base ⟨dev, layer, s.reserved.erase t⟩ held')
    ?_
  · exact wp_sound hwp hp
  · intro dev' layer' hframe hconfig' hclear' howes'
    have hafter := owes_nil_accounts howes'
    refine ⟨?_, h.reassemble howes' hframe (fun t' ht => ?_) fun own hids _ => ?_⟩
    · cases hnoted : s.reserved.find? t with
      | some blocks =>
        rw [hnoted] at htask
        simp only [CallBalanced, hnoted]
        exact (split_blocks hbefore hafter).trans (htask.2.2.2.append_right _)
      | none =>
        rw [hnoted] at htask
        simp only [CallBalanced, hnoted]
        rw [htask.2.2, List.nil_append] at hbefore
        exact hafter.unique hbefore
    · simp [SortedMap.find?_erase, ht]
    · simp only [SortedMap.find?_erase, if_true]
      exact ⟨hconfig', hclear', List.map_eq_nil_iff.mp hids.eq_nil⟩

theorem Inv.call {held : List Holding} (h : Inv L base s held) {op : Op}
    (hp : s.Permitted m harmless void op) :
    s.CallBalanced pool op (s.exec m pool op) ∧
      ((s.exec m pool op).2 ≠ .aborted → ∃ held', Inv L base (s.exec m pool op).1 held') := by
  cases op with
  | registerTask task e => exact h.registerTask hp
  | release t e => exact ⟨(h.release hp).1, fun _ => (h.release hp).2⟩

/-- With nothing reserved nothing is held. -/
theorem Inv.restored {held : List Holding} (h : Inv L base s held) (hbase : PoolInv base)
    (hnone : ∀ t, s.reserved.find? t = none) : pool s.layer.1 = base := by
  have hnil : held = [] := by
    refine List.eq_nil_iff_forall_not_mem.mpr fun x hx => ?_
    have htask := h.tasks x.taskId
    rw [hnone] at htask
    have hmem : x ∈ ofTask held x.taskId := List.mem_filter.mpr ⟨hx, by simp⟩
    rw [htask.2.2] at hmem
    cases hmem
  subst hnil
  exact (L.accounts h.holds).unique (Accounts.refl hbase)

/-- Every session of permitted calls is balanced, from a layer that has handed out nothing. -/
theorem balanced_of_ledger (hbase : PoolInv base) {layer : σ} (hstart : L.Holds base [] layer)
    (hrun : Relation.ReflTransGen (Step m pool harmless void) (init layer) s) :
    Balanced m pool harmless void base s := by
  have hinit : ∃ held, Inv L base (init layer) held :=
    ⟨[], hstart, fun e => by simp [init], fun t => ⟨rfl, ⟨rfl, rfl⟩, rfl⟩⟩
  obtain ⟨held, hinv⟩ : ∃ held, Inv L base s held := by
    refine @Run.invariant _ _ (fun s => ∃ held, Inv L base s held) _ _ ?_ hrun hinit
    rintro s s' ⟨op, hp, hne, rfl⟩ ⟨held, h⟩
    exact (h.call hp).2 hne
  exact ⟨fun op hp => (hinv.call hp).1, hinv.restored hbase⟩

end Invariant
/-! ### Both layers -/

section Layers
variable {p : Policy} {n : ℕ} {memAddr memSize : Fin n → ℕ}

/-- On the pool of a device that works without a service. -/
theorem balanced_noServiceLayer {layer : NoServiceLayer} (hwf : layer.Wf)
    {s : Session NoServiceLayer} (hrun : Relation.ReflTransGen
      (Step NoServiceLayer.component NoServiceLayer.mem NoServiceLayer.harmless NoServiceLayer.void)
      (init layer) s) :
    Balanced NoServiceLayer.component NoServiceLayer.mem NoServiceLayer.harmless
      NoServiceLayer.void layer.mem s :=
  balanced_of_ledger (L := NoServiceLayer.ledger) hwf.pool hwf.holds hrun

/-- The pool of a device in the service. -/
def servicePool (d : Fin n) (s : ShmService p n) : Memory := (s.service.mem d).mem

theorem balanced_serviceLayer (hlt : ∀ d, memSize d + 4095 < 2 ^ 64) {l : Lending p n}
    (hl : Lending.Tracked memSize l) (pid : ℤ) (d : Fin n) {s : Session (ShmService p n)}
    (hrun : Relation.ReflTransGen (Step (ServiceLayer.component p pid d) (servicePool d)
      (ServiceLayer.harmless pid d) (ServiceLayer.void pid d)) (init l.shm) s) :
    Balanced (ServiceLayer.component p pid d) (servicePool d) (ServiceLayer.harmless pid d)
      (ServiceLayer.void pid d) (servicePool d l.shm) s := by
  have hpool : PoolInv (servicePool d l.shm) := (hl.owned d).owned.pool
  refine balanced_of_ledger (L := ServiceLayer.ledger p hlt pid d) hpool ?_ hrun
  exact ⟨Accounts.refl hpool, List.nodup_nil, l.live, hl, fun _ hh => nomatch hh⟩

/-- Registration is balanced in both modes, from any pool, as long as no task is registered twice
    and the environment spoils no books: an allocation at the pool offset 0 without a service, a
    granted block that the process never gets to know, a number in use, a PPU write that throws, or
    a deallocation in `Release` that meets a block of somebody else. -/
theorem registration_balanced (hpos : ∀ d, 0 < memSize d)
    (hlt : ∀ d, memSize d + 4095 < 2 ^ 64) :
    (∀ layer : NoServiceLayer, layer.Wf → ∀ s, Relation.ReflTransGen
        (Step NoServiceLayer.component NoServiceLayer.mem NoServiceLayer.harmless
          NoServiceLayer.void) (init layer) s →
      Balanced NoServiceLayer.component NoServiceLayer.mem NoServiceLayer.harmless
        NoServiceLayer.void layer.mem s) ∧
    ∀ (l : Lending p n) (pid : ℤ) (d : Fin n), Relation.ReflTransGen
        (Lending.Step Lending.KeysFresh) (Lending.init p memAddr memSize) l →
      ∀ s, Relation.ReflTransGen (Step (ServiceLayer.component p pid d) (servicePool d)
        (ServiceLayer.harmless pid d) (ServiceLayer.void pid d)) (init l.shm) s →
      Balanced (ServiceLayer.component p pid d) (servicePool d) (ServiceLayer.harmless pid d)
        (ServiceLayer.void pid d) (servicePool d l.shm) s := by
  refine ⟨fun layer hwf s hrun => balanced_noServiceLayer hwf hrun, fun l pid d hl s hrun => ?_⟩
  have htracked : Lending.Tracked memSize l := by
    refine Run.invariant ?_ hl (Lending.tracked_init hpos hlt)
    rintro l l' ⟨op, hop, hfresh, rfl⟩ h
    exact Lending.tracked_exec hlt h hop hfresh
  exact balanced_serviceLayer hlt htracked pid d hrun

end Layers

/-- A task with an rmap and a weight of a page each, a slice of 128 bytes and two buffers. -/
def smallTask : TaskData where
  id := 7
  inputSize := 64
  outputSize := 64
  encodedInputSize := 64
  outputMemSize := 64
  bufferCount := 2
  npuModel := ⟨⟨0, 0, 0, 4096⟩, ⟨0, 0, 0, 4096⟩, 0, 0, 64⟩
  isPPCPU := false
  data := none

/-- Everything works; the system hands out the descriptors from 3 on. -/
def calm (i : ℕ) : Surroundings where
  os := ⟨i + 3, 2 ^ 30, true⟩
  delivered := true
  answered := true
  fd := i + 3
  ptr := 2 ^ 31
  dma := .returns 0 true

/-- A new pool of 64 KiB whose first page is taken. -/
def paged : NoServiceLayer :=
  ((⟨Memory.ofInfo 65536, 1, .empty⟩ : NoServiceLayer).allocateInfo .normal 4096).1

theorem paged_wf : paged.Wf := by
  refine ⟨?_, by decide +kernel, ?_⟩
  · have hsound : PoolSound (Memory.ofInfo 65536) .normal 4096 := by decide +kernel
    rcases NoServiceLayer.poolAllocate_spec (poolInv_ofInfo (by decide) (by decide)) hsound with
      heq | ⟨_, hc⟩
    · exact absurd (congrArg Prod.snd heq) (by decide +kernel)
    · exact hc.inv
  · intro id addr hfind
    rw [paged, NoServiceLayer.allocateInfo] at *
    simp only [SortedMap.find?_insert] at hfind ⊢
    split_ifs at hfind with hid
    · omega
    · simp at hfind

/-- The task is registered on two pools, without a service and with one. -/
theorem registration_balanced_small_task :
    (∃ s, Relation.ReflTransGen (Step NoServiceLayer.component NoServiceLayer.mem
        NoServiceLayer.harmless NoServiceLayer.void) (init paged) s ∧
      s.reserved.entries = [(7, [(4096, 4096), (57344, 4096), (61440, 4096)])] ∧
      Balanced NoServiceLayer.component NoServiceLayer.mem NoServiceLayer.harmless
        NoServiceLayer.void paged.mem s) ∧
    ∃ s, Relation.ReflTransGen (Step (ServiceLayer.component .fifo 1 (0 : Fin 1)) (servicePool 0)
        (ServiceLayer.harmless 1 0) (ServiceLayer.void 1 0))
        (init (Lending.init .fifo (fun _ => 2 ^ 32) fun _ => 65536).shm) s ∧
      s.reserved.entries = [(7, [(0, 4096), (57344, 4096), (61440, 4096)])] ∧
      Balanced (ServiceLayer.component .fifo 1 (0 : Fin 1)) (servicePool 0)
        (ServiceLayer.harmless 1 0) (ServiceLayer.void 1 0) (Memory.ofInfo 65536) s := by
  obtain ⟨hlibrary, hservice⟩ := @registration_balanced .fifo 1 (fun _ => 2 ^ 32) (fun _ => 65536)
    (fun _ => by decide) (fun _ => by decide)
  constructor
  · have hrun : Relation.ReflTransGen (Step NoServiceLayer.component NoServiceLayer.mem
        NoServiceLayer.harmless NoServiceLayer.void) (init paged) _ :=
      .single ⟨.registerTask smallTask calm, ⟨by decide +kernel, by decide +kernel⟩,
        by decide +kernel, rfl⟩
    exact ⟨_, hrun, by decide +kernel, hlibrary paged paged_wf _ hrun⟩
  · have hrun : Relation.ReflTransGen (Step (ServiceLayer.component .fifo 1 (0 : Fin 1))
        (servicePool 0) (ServiceLayer.harmless 1 0) (ServiceLayer.void 1 0))
        (init (Lending.init .fifo (fun _ => 2 ^ 32) fun _ => 65536).shm) _ :=
      .single ⟨.registerTask smallTask calm, ⟨by decide +kernel, by decide +kernel⟩,
        by decide +kernel, rfl⟩
    exact ⟨_, hrun, by decide +kernel, hservice _ 1 0 .refl _ hrun⟩

/-- A new pool without a service: the cache is at the offset 0, and stays when the task goes. -/
theorem registration_leaks_offset_zero :
    let start : Session NoServiceLayer := init ⟨Memory.ofInfo 65536, 1, .empty⟩
    let registered := start.exec NoServiceLayer.component NoServiceLayer.mem
      (.registerTask smallTask calm)
    let released := registered.1.exec NoServiceLayer.component NoServiceLayer.mem (.release 7 calm)
    registered.2 = .returned 0 ∧
      registered.1.reserved.entries = [(7, [(0, 4096), (57344, 4096), (61440, 4096)])] ∧
      released.1.reserved.entries = [] ∧ released.1.layer.1.mem.blocks = [(0, 4096)] ∧
      released.1.layer.1.mem ≠ start.layer.1.mem := by
  decide +kernel

end Session
end DxRt
