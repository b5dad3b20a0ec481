import DxRt.Lib.Run
import DxRt.Memory.Run
import DxRt.Memory.Service

/-! Ownership of device memory: the registries and the pool say the same.

    `Owned` is the invariant that ties the two registries to the pool: the recorded addresses are
    the starts of the busy nodes, each recorded under one owner. Every deallocation is an instance
    of `Freed`: a duplicate-free list of recorded addresses leaves both the registry and the pool,
    and nothing else changes. -/

namespace DxRt.MemoryService
open Memory

/-- Who an address is recorded for. -/
inductive Owner where
  | legacy (pid : ℤ)
  | task (pid taskId : ℤ)
  deriving DecidableEq

def Owner.pid : Owner → ℤ
  | .legacy pid => pid
  | .task pid _ => pid

/-- The addresses recorded for one owner. -/
def addrsOf (s : MemoryService) : Owner → AddrSet
  | .legacy pid => (s.legacyAllocInfo.find? pid).getD .empty
  | .task pid taskId => (((s.taskAllocInfo.find? pid).getD .empty).find? taskId).getD .empty

/-- `addr` is recorded for `o`. -/
def Owns (s : MemoryService) (o : Owner) (addr : ℕ) : Prop := (s.addrsOf o).contains addr = true

instance (s : MemoryService) (o : Owner) (addr : ℕ) : Decidable (s.Owns o addr) :=
  inferInstanceAs (Decidable (_ = _))

structure Owned (s : MemoryService) : Prop where
  pool : PoolInv s.mem
  exact : ∀ a, (∃ o, s.Owns o a) ↔ a ∈ s.mem.blocks.map Prod.fst
  unique : ∀ o o' a, s.Owns o a → s.Owns o' a → o = o'

/-! ### Address sets -/

theorem mem_keys_iff {set : AddrSet} {a : ℕ} : a ∈ set.keys ↔ set.contains a = true := by
  rw [SortedMap.contains_iff, SortedMap.keys, List.mem_map]
  constructor
  · rintro ⟨⟨k, v⟩, hmem, rfl⟩; exact ⟨v, (set.find?_eq_some _ _).mpr hmem⟩
  · rintro ⟨v, hv⟩; exact ⟨(a, v), (set.find?_eq_some _ _).mp hv, rfl⟩

theorem contains_insert (set : AddrSet) (a b : ℕ) :
    (set.insert a ()).contains b = true ↔ b = a ∨ set.contains b = true := by
  rw [SortedMap.contains, SortedMap.find?_insert]
  split_ifs with h
  · simp [h]
  · simp [h, SortedMap.contains]

theorem contains_erase (set : AddrSet) (a b : ℕ) :
    (set.erase a).contains b = true ↔ b ≠ a ∧ set.contains b = true := by
  rw [SortedMap.contains, SortedMap.find?_erase]
  split_ifs with h
  · simp [h]
  · simp [h, SortedMap.contains]

theorem isEmpty_contains {set : AddrSet} (h : set.isEmpty = true) (a : ℕ) :
    set.contains a = false := by
  rw [SortedMap.contains, (SortedMap.isEmpty_iff set).mp h a]; rfl

@[simp] theorem contains_empty (a : ℕ) : (SortedMap.empty : AddrSet).contains a = false := rfl

/-! ### What the registry operations do to the record -/

theorem owns_trackLegacy (s : MemoryService) (pid : ℤ) (addr : ℕ) (o : Owner) (a : ℕ) :
    (s.trackLegacy pid addr).Owns o a ↔ s.Owns o a ∨ o = .legacy pid ∧ a = addr := by
  cases o with
  | legacy p =>
    simp only [Owns, addrsOf, trackLegacy, SortedMap.find?_insert]
    split_ifs with h
    · subst h
      simp only [Option.getD_some, contains_insert, true_and]
      exact or_comm
    · simp [h]
  | task p t => simp [Owns, addrsOf, trackLegacy]

theorem owns_trackTask (s : MemoryService) (pid taskId : ℤ) (addr : ℕ) (o : Owner) (a : ℕ) :
    (s.trackTask pid taskId addr).Owns o a ↔ s.Owns o a ∨ o = .task pid taskId ∧ a = addr := by
  cases o with
  | legacy p => simp [Owns, addrsOf, trackTask]
  | task p t =>
    simp only [Owns, addrsOf, trackTask, SortedMap.find?_insert]
    split_ifs with h
    · subst h
      simp only [Option.getD_some, SortedMap.find?_insert]
      split_ifs with ht
      · subst ht
        simp only [Option.getD_some, contains_insert, true_and]
        exact or_comm
      · simp [ht]
    · simp [h]

/-- Dropping the entry of a process whose task map is empty changes no record. -/
theorem getD_eraseIfEmpty {κ ν : Type*} [LinearOrder κ] (m : SortedMap ℤ (SortedMap κ ν)) (pid p : ℤ)
    (tasks : SortedMap κ ν) :
    ((if tasks.isEmpty then m.erase pid else m.insert pid tasks).find? p).getD .empty
      = if p = pid then tasks else (m.find? p).getD .empty := by
  split_ifs with he hp hp
  · subst hp
    rw [SortedMap.find?_erase, if_pos rfl]
    exact (SortedMap.ext (List.isEmpty_iff.mp he)).symm
  · rw [SortedMap.find?_erase, if_neg hp]
  · subst hp; rw [SortedMap.find?_insert, if_pos rfl]; rfl
  · rw [SortedMap.find?_insert, if_neg hp]

/-! ### Deallocation -/

/-- What a deallocation of the addresses `gone` does. -/
structure Freed (s : MemoryService) (gone : Set ℕ) (s' : MemoryService) : Prop where
  owned : Owned s'
  size_eq : s'.mem.size = s.mem.size
  blocks : ∀ b, b ∈ s'.mem.blocks ↔ b ∈ s.mem.blocks ∧ b.1 ∉ gone
  recorded : ∀ o a, s'.Owns o a ↔ s.Owns o a ∧ a ∉ gone

/-- All addresses recorded for the owners in `who`. -/
def addrsOfAll (s : MemoryService) (who : Set Owner) : Set ℕ := {a | ∃ o ∈ who, s.Owns o a}

theorem deallocate_blocks {m : Memory} (h : PoolInv m) {a : ℕ} (ha : a ∈ m.blocks.map Prod.fst) :
    PoolInv (m.deallocate a) ∧ (m.deallocate a).size = m.size ∧
      ∀ b, b ∈ (m.deallocate a).blocks ↔ b ∈ m.blocks ∧ b.1 ≠ a := by
  obtain ⟨⟨a', n⟩, hmem, rfl⟩ := List.mem_map.mp ha
  obtain ⟨hinv, hsize, hperm⟩ := deallocate_spec h hmem
  have hnd : ((a', n) :: (m.deallocate a').blocks).map Prod.fst |>.Nodup :=
    (hperm.map Prod.fst).nodup_iff.mp m.blocks_nodup
  rw [List.map_cons, List.nodup_cons] at hnd
  refine ⟨hinv, hsize, fun b => ?_⟩
  rw [hperm.mem_iff, List.mem_cons]
  constructor
  · intro hb
    exact ⟨Or.inr hb, fun he => hnd.1 (he ▸ List.mem_map_of_mem hb)⟩
  · rintro ⟨rfl | hb, hne⟩
    · exact absurd rfl hne
    · exact hb

/-- Freeing a duplicate-free list of block starts removes exactly these blocks. -/
theorem freeAll_spec : ∀ (as : List ℕ) {m : Memory}, PoolInv m → as.Nodup →
    (∀ a ∈ as, a ∈ m.blocks.map Prod.fst) →
    PoolInv (freeAll m as) ∧ (freeAll m as).size = m.size ∧
      ∀ b, b ∈ (freeAll m as).blocks ↔ b ∈ m.blocks ∧ b.1 ∉ as
  | [], m, h, _, _ => ⟨h, rfl, by simp [freeAll]⟩
  | a :: as, m, h, hnd, hmem => by
    obtain ⟨hna, hnd⟩ := List.nodup_cons.mp hnd
    obtain ⟨hinv, hsize, hblocks⟩ := deallocate_blocks h (hmem a (List.mem_cons_self ..))
    have hmem' : ∀ x ∈ as, x ∈ (m.deallocate a).blocks.map Prod.fst := by
      intro x hx
      obtain ⟨b, hb, rfl⟩ := List.mem_map.mp (hmem x (List.mem_cons_of_mem _ hx))
      exact List.mem_map_of_mem ((hblocks b).mpr ⟨hb, fun he => hna (he ▸ hx)⟩)
    obtain ⟨hinv', hsize', hblocks'⟩ := freeAll_spec as hinv hnd hmem'
    refine ⟨hinv', hsize'.trans hsize, fun b => ?_⟩
    change b ∈ (freeAll (m.deallocate a) as).blocks ↔ _
    rw [hblocks' b, hblocks b, List.mem_cons, not_or, and_assoc]

theorem Owned.freed {s s' : MemoryService} (h : Owned s) {as : List ℕ} {gone : Set ℕ}
    (hnd : as.Nodup) (has : ∀ a, a ∈ as ↔ a ∈ gone) (hown : ∀ a ∈ gone, ∃ o, s.Owns o a)
    (hmem : s'.mem = freeAll s.mem as)
    (hrec : ∀ o a, s'.Owns o a ↔ s.Owns o a ∧ a ∉ gone) : Freed s gone s' := by
  obtain ⟨hinv, hsize, hblocks⟩ :=
    freeAll_spec as h.pool hnd fun a ha => (h.exact a).mp (hown a ((has a).mp ha))
  rw [← hmem] at hinv hsize hblocks
  simp only [has] at hblocks
  refine ⟨⟨hinv, fun a => ?_, fun o o' a ho ho' => ?_⟩, hsize, hblocks, hrec⟩
  · constructor
    · rintro ⟨o, ho⟩
      obtain ⟨ho, hna⟩ := (hrec o a).mp ho
      obtain ⟨b, hb, rfl⟩ := List.mem_map.mp ((h.exact a).mp ⟨o, ho⟩)
      exact List.mem_map_of_mem ((hblocks b).mpr ⟨hb, hna⟩)
    · intro ha
      obtain ⟨b, hb, rfl⟩ := List.mem_map.mp ha
      obtain ⟨hb, hna⟩ := (hblocks b).mp hb
      obtain ⟨o, ho⟩ := (h.exact b.1).mpr (List.mem_map_of_mem hb)
      exact ⟨o, (hrec o b.1).mpr ⟨ho, hna⟩⟩
  · exact h.unique o o' a ((hrec o a).mp ho).1 ((hrec o' a).mp ho').1

/-- The owners in `who` lose all they have; no other owner has any of it. -/
theorem Owned.cleared {s s' : MemoryService} (h : Owned s) (who : Set Owner)
    {as : List ℕ} (hnd : as.Nodup) (has : ∀ a, a ∈ as ↔ a ∈ s.addrsOfAll who)
    (hmem : s'.mem = freeAll s.mem as) (hkeep : ∀ o, o ∉ who → s'.addrsOf o = s.addrsOf o)
    (hdrop : ∀ o ∈ who, s'.addrsOf o = .empty) : Freed s (s.addrsOfAll who) s' := by
  refine h.freed hnd has (fun a ⟨o, _, ho⟩ => ⟨o, ho⟩) hmem fun o a => ?_
  by_cases hc : o ∈ who
  · have hnot : ¬ s'.Owns o a := by simp [Owns, hdrop o hc]
    exact ⟨fun ho => absurd ho hnot, fun ⟨ho, hna⟩ => absurd ⟨o, hc, ho⟩ hna⟩
  · have heq : s'.Owns o a ↔ s.Owns o a := by rw [Owns, Owns, hkeep o hc]
    refine ⟨fun ho => ⟨heq.mp ho, ?_⟩, fun ho => heq.mpr ho.1⟩
    rintro ⟨o', hc', ho'⟩
    exact hc (h.unique o' o a ho' (heq.mp ho) ▸ hc')

/-- Nothing is freed for owners that have nothing. -/
theorem Owned.unchanged {s : MemoryService} (h : Owned s) {gone : Set ℕ}
    (hno : ∀ a ∈ gone, ¬ ∃ o, s.Owns o a) : Freed s gone s := by
  refine ⟨h, rfl, fun b => ⟨fun hb => ⟨hb, fun hg => ?_⟩, And.left⟩,
    fun o a => ⟨fun ho => ⟨ho, fun hg => hno a hg ⟨o, ho⟩⟩, And.left⟩⟩
  exact hno b.1 hg ((h.exact b.1).mpr (List.mem_map_of_mem hb))

theorem Freed.trans {s s' s'' : MemoryService} {gone gone' : Set ℕ} (h : Freed s gone s')
    (h' : Freed s' gone' s'') : Freed s (gone ∪ gone') s'' := by
  refine ⟨h'.owned, h'.size_eq.trans h.size_eq, fun b => ?_, fun o a => ?_⟩
  · rw [h'.blocks, h.blocks, Set.mem_union, not_or, and_assoc]
  · rw [h'.recorded, h.recorded, Set.mem_union, not_or, and_assoc]

/-! ### The deallocation functions -/

theorem owns_task_iff {s : MemoryService} {pid taskId : ℤ} {a : ℕ} :
    s.Owns (.task pid taskId) a ↔ ∃ tasks set, s.taskAllocInfo.find? pid = some tasks ∧
      tasks.find? taskId = some set ∧ set.contains a = true := by
  rw [Owns, addrsOf]
  cases hp : s.taskAllocInfo.find? pid with
  | none => simp
  | some tasks =>
    cases ht : tasks.find? taskId with
    | none => simp [ht, -SortedMap.find?_eq_some]
    | some set => simp [ht, -SortedMap.find?_eq_some]

theorem owns_legacy_iff {s : MemoryService} {pid : ℤ} {a : ℕ} :
    s.Owns (.legacy pid) a ↔ ∃ set, s.legacyAllocInfo.find? pid = some set ∧
      set.contains a = true := by
  rw [Owns, addrsOf]
  cases hp : s.legacyAllocInfo.find? pid with
  | none => simp
  | some set => simp

/-- A block is freed, and its address is taken from one owner's record. -/
structure Taken (s : MemoryService) (o : Owner) (a : ℕ) (s' : MemoryService) : Prop where
  mem : s'.mem = s.mem.deallocate a
  self : s'.addrsOf o = (s.addrsOf o).erase a
  other : ∀ o', o' ≠ o → s'.addrsOf o' = s.addrsOf o'

/-- If nobody else has the address, it is recorded for nobody any more. -/
theorem Taken.recorded {s s' : MemoryService} {o : Owner} {a : ℕ} (h : Taken s o a s')
    (hunique : ∀ o', s.Owns o' a → o' = o) (o' : Owner) (b : ℕ) :
    s'.Owns o' b ↔ s.Owns o' b ∧ b ≠ a := by
  by_cases heq : o' = o
  · subst heq
    rw [Owns, h.self, contains_erase, Owns]
    exact and_comm
  · rw [Owns, h.other o' heq, ← Owns]
    refine ⟨fun hb => ⟨hb, ?_⟩, fun hb => hb.1⟩
    rintro rfl
    exact heq (hunique o' hb)

theorem Owned.freed_one {s s' : MemoryService} (h : Owned s) {o : Owner} {a : ℕ}
    (ho : s.Owns o a) (htaken : Taken s o a s') : Freed s {a} s' := by
  refine h.freed (List.nodup_singleton a) (by simp) ?_ (by rw [htaken.mem]; rfl)
    (htaken.recorded fun o' ho' => h.unique o' o a ho' ho)
  rintro b rfl
  exact ⟨o, ho⟩

/-- The address is taken from the first task that has it. -/
theorem deallocateTaskAddress_taken {s : MemoryService} {a : ℕ} {pid taskId : ℤ}
    (ho : s.Owns (.task pid taskId) a) : (s.deallocateTaskAddress a pid).2 = true ∧
      ∃ t, s.Owns (.task pid t) a ∧ Taken s (.task pid t) a (s.deallocateTaskAddress a pid).1 := by
  obtain ⟨tasks, set, hp, ht, hset⟩ := owns_task_iff.mp ho
  rw [deallocateTaskAddress, hp]
  cases hfind : tasks.entries.find? (fun e => e.2.contains a) with
  | none => exact absurd hset (List.find?_eq_none.mp hfind _ ((tasks.find?_eq_some _ _).mp ht))
  | some e =>
    obtain ⟨t, set'⟩ := e
    have hmem : tasks.find? t = some set' :=
      (tasks.find?_eq_some _ _).mpr (List.mem_of_find?_eq_some hfind)
    have hcontains : set'.contains a = true := by simpa using List.find?_some hfind
    simp only [hfind]
    refine ⟨trivial, t, owns_task_iff.mpr ⟨tasks, set', hp, hmem, hcontains⟩, rfl, ?_,
      fun o' hne => ?_⟩
    · simp only [addrsOf, getD_eraseIfEmpty, if_true, hp, Option.getD_some, hmem]
    · cases o' with
      | legacy p => rfl
      | task p t' =>
        simp only [addrsOf, getD_eraseIfEmpty]
        by_cases hpid : p = pid
        · subst hpid
          have hne' : t' ≠ t := fun heq => hne (heq ▸ rfl)
          rw [if_pos rfl, getD_eraseIfEmpty, if_neg hne', hp, Option.getD_some]
        · rw [if_neg hpid]

theorem deallocateTaskAddress_foreign {s : MemoryService} {a : ℕ} {pid : ℤ}
    (hno : ∀ taskId, ¬ s.Owns (.task pid taskId) a) : s.deallocateTaskAddress a pid = (s, false) := by
  rw [deallocateTaskAddress]
  cases hp : s.taskAllocInfo.find? pid with
  | none => rfl
  | some tasks =>
    have hfind : tasks.entries.find? (fun e => e.2.contains a) = none := by
      refine List.find?_eq_none.mpr fun e he hcontains => ?_
      exact hno e.1 (owns_task_iff.mpr ⟨tasks, e.2, hp, (tasks.find?_eq_some _ _).mpr he, hcontains⟩)
    simp only [hfind]

/-- The address is taken from one of the owners of the calling process that have it. -/
theorem deallocateAddress_taken {s : MemoryService} {a : ℕ} {o : Owner} (ho : s.Owns o a) :
    (s.deallocateAddress a o.pid).2 = true ∧
      ∃ o', s.Owns o' a ∧ Taken s o' a (s.deallocateAddress a o.pid).1 := by
  by_cases hlegacy : s.Owns (.legacy o.pid) a
  · obtain ⟨set, hp, hset⟩ := owns_legacy_iff.mp hlegacy
    rw [deallocateAddress, hp]
    simp only [hset, if_true]
    refine ⟨trivial, _, hlegacy, rfl, ?_, fun o' hne => ?_⟩
    · simp [addrsOf, SortedMap.find?_insert, hp]
    · cases o' with
      | legacy p =>
        have hne' : p ≠ o.pid := fun heq => hne (heq ▸ rfl)
        simp [addrsOf, SortedMap.find?_insert, hne']
      | task p t => rfl
  · cases o with
    | legacy pid => exact absurd ho hlegacy
    | task pid taskId =>
      have htask : s.deallocateAddress a pid = s.deallocateTaskAddress a pid := by
        rw [deallocateAddress]
        cases hp : s.legacyAllocInfo.find? pid with
        | none => rfl
        | some set =>
          simp only
          rw [if_neg fun hset => hlegacy (owns_legacy_iff.mpr ⟨set, hp, hset⟩)]
      simp only [Owner.pid]
      rw [htask]
      obtain ⟨hok, t, ht, htaken⟩ := deallocateTaskAddress_taken ho
      exact ⟨hok, _, ht, htaken⟩

/-- `DeallocateAddress` frees an address recorded for the calling process. -/
theorem deallocateAddress_owned {s : MemoryService} (h : Owned s) {a : ℕ} {o : Owner}
    (ho : s.Owns o a) :
    (s.deallocateAddress a o.pid).2 = true ∧ Freed s {a} (s.deallocateAddress a o.pid).1 := by
  obtain ⟨hok, o', ho', htaken⟩ := deallocateAddress_taken ho
  exact ⟨hok, h.freed_one ho' htaken⟩

/-- `DeallocateAddress` refuses an address that is not recorded for the calling process. -/
theorem deallocateAddress_foreign {s : MemoryService} {a : ℕ} {pid : ℤ}
    (hno : ∀ o : Owner, o.pid = pid → ¬ s.Owns o a) : s.deallocateAddress a pid = (s, false) := by
  rw [deallocateAddress]
  have htask := deallocateTaskAddress_foreign fun taskId => hno (.task pid taskId) rfl
  cases hp : s.legacyAllocInfo.find? pid with
  | none => exact htask
  | some set =>
    simp only
    rw [if_neg fun hset => hno (.legacy pid) rfl (owns_legacy_iff.mpr ⟨set, hp, hset⟩)]
    exact htask

theorem blocks_start_lt {m : Memory} (h : PoolInv m) {a : ℕ} (ha : a ∈ m.blocks.map Prod.fst) :
    a < NEG1 := by
  obtain ⟨⟨a', n⟩, hmem, rfl⟩ := List.mem_map.mp ha
  obtain ⟨node, he, _, _⟩ := mem_busyBlocks.mp hmem
  obtain ⟨_, hpos, hend⟩ := h.layout.tiles.bounds _ he
  have hbound := h.bound
  simp only [NEG1] at *; omega

/-- After `DeallocateTask` the task has no record; the other records stay. -/
theorem addrsOf_deallocateTask (s : MemoryService) (pid taskId : ℤ) (o : Owner) :
    (s.deallocateTask pid taskId).1.addrsOf o =
      if o = .task pid taskId then .empty else s.addrsOf o := by
  rw [deallocateTask]
  cases hp : s.taskAllocInfo.find? pid with
  | none =>
    split_ifs with ho
    · subst ho
      simp [addrsOf, hp]
    · rfl
  | some tasks =>
    cases ht : tasks.find? taskId with
    | none =>
      simp only [ht]
      split_ifs with ho
      · subst ho
        simp only [addrsOf, hp, Option.getD_some, ht, Option.getD_none]
      · rfl
    | some set =>
      simp only [ht]
      cases o with
      | legacy p => simp only [addrsOf, reduceCtorEq, if_false]
      | task p t =>
        simp only [addrsOf, getD_eraseIfEmpty, Owner.task.injEq]
        by_cases hpid : p = pid
        · subst hpid
          rw [if_pos rfl, SortedMap.find?_erase, hp, Option.getD_some]
          split_ifs <;> simp_all
        · rw [if_neg hpid, if_neg fun h => hpid h.1]

/-- `DeallocateTask` frees what is recorded for the task. -/
theorem deallocateTask_freed {s : MemoryService} (h : Owned s) (pid taskId : ℤ) :
    Freed s (s.addrsOfAll {.task pid taskId}) (s.deallocateTask pid taskId).1 := by
  have haddrs := addrsOf_deallocateTask s pid taskId
  have hnone : (∀ a, ¬ s.Owns (.task pid taskId) a) →
      Freed s (s.addrsOfAll {.task pid taskId}) s := by
    intro hno
    refine h.unchanged ?_
    rintro a ⟨o, rfl, ho⟩
    exact absurd ho (hno a)
  rw [deallocateTask] at haddrs ⊢
  cases hp : s.taskAllocInfo.find? pid with
  | none =>
    refine hnone fun a ho => ?_
    obtain ⟨tasks, _, hp', _⟩ := owns_task_iff.mp ho
    simp [hp] at hp'
  | some tasks =>
    cases ht : tasks.find? taskId with
    | none =>
      simp only [ht]
      refine hnone fun a ho => ?_
      obtain ⟨tasks', set, hp', ht', _⟩ := owns_task_iff.mp ho
      rw [hp, Option.some.injEq] at hp'
      subst hp'
      simp [ht] at ht'
    | some set =>
      simp only [hp, ht] at haddrs ⊢
      have howns : ∀ a, s.Owns (.task pid taskId) a ↔ a ∈ set.keys := by
        intro a
        rw [mem_keys_iff, Owns, addrsOf, hp, Option.getD_some, ht, Option.getD_some]
      refine h.cleared _ (set.keys_nodup.filter _) (fun a => ?_) rfl
        (fun o ho => (haddrs o).trans (if_neg ho)) (fun o ho => (haddrs o).trans (if_pos ho))
      simp only [List.mem_filter, decide_eq_true_eq, addrsOfAll, Set.mem_singleton_iff,
        exists_eq_left, Set.mem_ofPred_eq, howns]
      refine ⟨And.left, fun hk => ⟨hk, ?_⟩⟩
      exact (blocks_start_lt h.pool ((h.exact a).mp ⟨_, (howns a).mpr hk⟩)).ne

/-- The owners of task memory of one process. -/
def Owner.tasksOf (pid : ℤ) : Set Owner := {o | ∃ taskId, o = .task pid taskId}

/-- All owners of one process. -/
def Owner.allOf (pid : ℤ) : Set Owner := {o | o.pid = pid}

theorem taskAddrs_nodup {s : MemoryService} (h : Owned s) {pid : ℤ} {tasks : SortedMap ℤ AddrSet}
    (hp : s.taskAllocInfo.find? pid = some tasks) : (taskAddrs tasks).Nodup := by
  refine List.nodup_flatMap.mpr ⟨fun e _ => e.2.keys_nodup, ?_⟩
  refine tasks.sorted.imp_of_mem fun {e e'} he he' hlt => ?_
  intro a ha ha'
  have howns : ∀ e ∈ tasks.entries, a ∈ e.2.keys → s.Owns (.task pid e.1) a := fun e he ha =>
    owns_task_iff.mpr ⟨tasks, e.2, hp, (tasks.find?_eq_some _ _).mpr he, mem_keys_iff.mp ha⟩
  have heq := h.unique _ _ a (howns e he ha) (howns e' he' ha')
  exact hlt.ne (Owner.task.inj heq).2

theorem deallocateAllTasks_freed {s : MemoryService} (h : Owned s) (pid : ℤ) :
    Freed s (s.addrsOfAll (Owner.tasksOf pid)) (s.deallocateAllTasks pid) := by
  rw [deallocateAllTasks]
  cases hp : s.taskAllocInfo.find? pid with
  | none =>
    refine h.unchanged ?_
    rintro a ⟨_, ⟨taskId, rfl⟩, ho⟩
    obtain ⟨tasks, _, hp', _⟩ := owns_task_iff.mp ho
    simp [hp] at hp'
  | some tasks =>
    refine h.cleared _ (taskAddrs_nodup h hp) (fun a => ?_) rfl (fun o ho => ?_) ?_
    · simp only [taskAddrs, List.mem_flatMap, addrsOfAll, Owner.tasksOf, Set.mem_ofPred_eq]
      constructor
      · rintro ⟨⟨t, set⟩, he, ha⟩
        exact ⟨_, ⟨t, rfl⟩, owns_task_iff.mpr
          ⟨tasks, set, hp, (tasks.find?_eq_some _ _).mpr he, mem_keys_iff.mp ha⟩⟩
      · rintro ⟨_, ⟨t, rfl⟩, ho⟩
        obtain ⟨tasks', set, hp', ht, hset⟩ := owns_task_iff.mp ho
        obtain rfl : tasks = tasks' := Option.some.inj (hp.symm.trans hp')
        exact ⟨(t, set), (tasks.find?_eq_some _ _).mp ht, mem_keys_iff.mpr hset⟩
    · cases o with
      | legacy p => rfl
      | task p t =>
        have hne : p ≠ pid := fun heq => ho ⟨t, heq ▸ rfl⟩
        simp only [addrsOf, SortedMap.find?_erase, if_neg hne]
    · rintro _ ⟨t, rfl⟩
      simp [addrsOf, SortedMap.find?_erase]

theorem deallocateLegacy_freed {s : MemoryService} (h : Owned s) (pid : ℤ) :
    Freed s (s.addrsOfAll {.legacy pid}) (s.deallocateLegacy pid) := by
  rw [deallocateLegacy]
  cases hp : s.legacyAllocInfo.find? pid with
  | none =>
    refine h.unchanged ?_
    rintro a ⟨_, rfl, ho⟩
    obtain ⟨set, hp', _⟩ := owns_legacy_iff.mp ho
    simp [hp] at hp'
  | some set =>
    refine h.cleared _ set.keys_nodup (fun a => ?_) rfl (fun o ho => ?_) ?_
    · simp [mem_keys_iff, addrsOfAll, Owns, addrsOf, hp]
    · cases o with
      | task p t => rfl
      | legacy p =>
        have hne : p ≠ pid := fun heq => ho (heq ▸ rfl)
        simp only [addrsOf, SortedMap.find?_erase, if_neg hne]
    · rintro _ rfl
      simp [addrsOf, SortedMap.find?_erase]

/-- `DeallocateAll` frees what is recorded for the process, task memory and legacy memory. -/
theorem deallocateAll_freed {s : MemoryService} (h : Owned s) (pid : ℤ) :
    Freed s (s.addrsOfAll (Owner.allOf pid)) (s.deallocateAll pid) := by
  have htasks := deallocateAllTasks_freed h pid
  have hall := htasks.trans (deallocateLegacy_freed htasks.owned pid)
  have hset : s.addrsOfAll (Owner.tasksOf pid) ∪
      (s.deallocateAllTasks pid).addrsOfAll {.legacy pid} = s.addrsOfAll (Owner.allOf pid) := by
    ext a
    simp only [Set.mem_union, addrsOfAll, Set.mem_ofPred_eq, Set.mem_singleton_iff, exists_eq_left,
      htasks.recorded]
    constructor
    · rintro (⟨_, ⟨t, rfl⟩, ho⟩ | ⟨ho, _⟩)
      · exact ⟨_, rfl, ho⟩
      · exact ⟨_, rfl, ho⟩
    · rintro ⟨o, hpid, ho⟩
      cases o with
      | task p t => exact Or.inl ⟨_, ⟨t, by rw [← hpid]; rfl⟩, ho⟩
      | legacy p =>
        obtain rfl : p = pid := hpid
        refine Or.inr ⟨ho, ?_⟩
        rintro ⟨_, ⟨t, rfl⟩, ho'⟩
        exact absurd (h.unique _ _ a ho ho') nofun
  exact hset ▸ hall

/-! ### Records, whatever the pool -/

theorem owns_deallocateTask {s : MemoryService} {pid taskId : ℤ} {o : Owner} {a : ℕ} :
    (s.deallocateTask pid taskId).1.Owns o a ↔ o ≠ .task pid taskId ∧ s.Owns o a := by
  rw [Owns, addrsOf_deallocateTask]
  split_ifs with ho
  · simp [ho]
  · simp [ho, Owns]

theorem owns_of_deallocateTaskAddress {s : MemoryService} {addr : ℕ} {pid : ℤ} {o : Owner} {a : ℕ}
    (h : (s.deallocateTaskAddress addr pid).1.Owns o a) : s.Owns o a := by
  rw [deallocateTaskAddress] at h
  cases hp : s.taskAllocInfo.find? pid with
  | none => simpa [hp] using h
  | some tasks =>
    cases hfind : tasks.entries.find? (fun e => e.2.contains addr) with
    | none => simpa [hp, hfind] using h
    | some e =>
      simp only [hp, hfind] at h
      cases o with
      | legacy p => exact h
      | task p t =>
        have htask : tasks.find? e.1 = some e.2 :=
          (tasks.find?_eq_some _ _).mpr (List.mem_of_find?_eq_some hfind)
        simp only [Owns, addrsOf, getD_eraseIfEmpty] at h ⊢
        by_cases hpid : p = pid
        · subst hpid
          rw [if_pos rfl, getD_eraseIfEmpty] at h
          rw [hp, Option.getD_some]
          split_ifs at h with ht
          · rw [ht, htask, Option.getD_some]
            exact ((contains_erase _ _ _).mp h).2
          · exact h
        · rwa [if_neg hpid] at h

/-- `DeallocateAddress` adds nothing to the record. -/
theorem owns_of_deallocateAddress {s : MemoryService} {addr : ℕ} {pid : ℤ} {o : Owner} {a : ℕ}
    (h : (s.deallocateAddress addr pid).1.Owns o a) : s.Owns o a := by
  rw [deallocateAddress] at h
  cases hp : s.legacyAllocInfo.find? pid with
  | none =>
    simp only [hp] at h
    exact owns_of_deallocateTaskAddress h
  | some set =>
    simp only [hp] at h
    split_ifs at h with hset
    · cases o with
      | task p t => exact h
      | legacy p =>
        simp only [Owns, addrsOf, SortedMap.find?_insert] at h ⊢
        split_ifs at h with hpid
        · rw [hpid, hp, Option.getD_some]
          exact ((contains_erase _ _ _).mp h).2
        · exact h
    · exact owns_of_deallocateTaskAddress h

/-- An allocation adds to the record of its own process only. -/
theorem owns_of_allocateWith {s : MemoryService} {alloc : Memory → ℕ → Memory × ℕ}
    {track : MemoryService → ℕ → MemoryService} {n : ℕ} {o o' : Owner} {a : ℕ}
    (htrack : ∀ s a o' a', (track s a).Owns o' a' ↔ s.Owns o' a' ∨ o' = o ∧ a' = a)
    (h : (s.allocateWith alloc track n).1.Owns o' a) : s.Owns o' a ∨ o' = o := by
  rw [allocateWith] at h
  by_cases hadm : s.admits n = true
  · simp only [if_pos hadm] at h
    split_ifs at h
    · exact ((htrack _ _ _ _).mp h).imp id And.left
    · exact Or.inl h
  · rw [if_neg hadm] at h
    exact Or.inl h

theorem owns_optimizeMemory {s : MemoryService} {o : Owner} {a : ℕ} :
    s.optimizeMemory.Owns o a ↔ s.Owns o a := by
  rw [optimizeMemory]
  split_ifs <;> cases o <;> rfl

end DxRt.MemoryService
