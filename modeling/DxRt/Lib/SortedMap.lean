import Mathlib

/-! Ordered associative containers (`std::map`, `std::set`) as key-sorted association lists.

    The representation carries its own order invariant, so a map with a repeated or misplaced key
    cannot be built. Every operation is characterised twice: by membership (`mem_insert`,
    `mem_erase`), which is what lookups need, and by list surgery (`insert_split`, `erase_split`),
    which is what arguments about neighbouring entries need. -/

namespace SortedMap

/-- Strict order of the keys of an entry list. -/
def Sorted {κ ν : Type*} [LT κ] (l : List (κ × ν)) : Prop := l.Pairwise (fun a b => a.1 < b.1)

end SortedMap

/-- An ordered map: its entries in increasing key order. -/
@[ext]
structure SortedMap (κ ν : Type*) [LinearOrder κ] where
  entries : List (κ × ν)
  sorted : SortedMap.Sorted entries

namespace SortedMap
variable {κ ν : Type*} [LinearOrder κ]

instance [DecidableEq ν] : DecidableEq (SortedMap κ ν) := fun a b =>
  decidable_of_iff (a.entries = b.entries) ⟨SortedMap.ext, fun h => h ▸ rfl⟩

/-- The empty map. -/
def empty : SortedMap κ ν := ⟨[], List.Pairwise.nil⟩

instance : Inhabited (SortedMap κ ν) := ⟨empty⟩

/-- `m.find(k)`. -/
def find? (m : SortedMap κ ν) (k : κ) : Option ν :=
  (m.entries.find? (fun e => decide (e.1 = k))).map Prod.snd

/-- `m.find(k) != m.end()`. -/
def contains (m : SortedMap κ ν) (k : κ) : Bool := (m.find? k).isSome

/-- `m[k] = v`: the entry of `k` is created or overwritten. -/
def insert (m : SortedMap κ ν) (k : κ) (v : ν) : SortedMap κ ν where
  entries := m.entries.filter (fun e => decide (e.1 < k)) ++
    (k, v) :: m.entries.filter (fun e => decide (k < e.1))
  sorted := by
    refine List.pairwise_append.mpr ⟨m.sorted.filter _, ?_, ?_⟩
    · refine List.pairwise_cons.mpr ⟨fun e he => ?_, m.sorted.filter _⟩
      simpa using (List.mem_filter.mp he).2
    · intro a ha b hb
      have hak : a.1 < k := by simpa using (List.mem_filter.mp ha).2
      rcases List.mem_cons.mp hb with rfl | hb
      · exact hak
      · exact hak.trans (by simpa using (List.mem_filter.mp hb).2)

/-- `m.erase(k)`. -/
def erase (m : SortedMap κ ν) (k : κ) : SortedMap κ ν where
  entries := m.entries.filter (fun e => decide (e.1 ≠ k))
  sorted := m.sorted.filter _

/-- A pass over all entries that updates or removes each value. -/
def filterMapVal (m : SortedMap κ ν) (f : ν → Option ν) : SortedMap κ ν where
  entries := m.entries.filterMap fun e => (f e.2).map (Prod.mk e.1)
  sorted := by
    refine List.Pairwise.filterMap _ ?_ m.sorted
    intro a a' hlt b hb b' hb'
    obtain ⟨v, _, rfl⟩ := Option.map_eq_some_iff.mp hb
    obtain ⟨v', _, rfl⟩ := Option.map_eq_some_iff.mp hb'
    exact hlt

/-- `prev(m.find(k))`: the last entry before `k`. -/
def prev? (m : SortedMap κ ν) (k : κ) : Option (κ × ν) :=
  (m.entries.filter (fun e => decide (e.1 < k))).getLast?

/-- `next(m.find(k))`: the first entry after `k`. -/
def next? (m : SortedMap κ ν) (k : κ) : Option (κ × ν) :=
  (m.entries.filter (fun e => decide (k < e.1))).head?

/-- The keys in order. -/
def keys (m : SortedMap κ ν) : List κ := m.entries.map Prod.fst

/-- `m.empty()`. -/
def isEmpty (m : SortedMap κ ν) : Bool := m.entries.isEmpty

/-! ### Membership and lookup -/

theorem keys_nodup (m : SortedMap κ ν) : m.keys.Nodup :=
  List.pairwise_map.mpr (m.sorted.imp ne_of_lt)

theorem key_unique (m : SortedMap κ ν) {k : κ} {v w : ν} (hv : (k, v) ∈ m.entries)
    (hw : (k, w) ∈ m.entries) : v = w :=
  congrArg Prod.snd (List.inj_on_of_nodup_map m.keys_nodup hv hw rfl)

@[simp] theorem find?_eq_some (m : SortedMap κ ν) (k : κ) (v : ν) :
    m.find? k = some v ↔ (k, v) ∈ m.entries := by
  rw [find?, Option.map_eq_some_iff]
  constructor
  · rintro ⟨⟨k', v'⟩, hfind, rfl⟩
    have hkey : k' = k := by simpa using List.find?_some hfind
    exact hkey ▸ List.mem_of_find?_eq_some hfind
  · intro hmem
    cases hfind : m.entries.find? (fun e => decide (e.1 = k)) with
    | none => exact absurd (List.find?_eq_none.mp hfind _ hmem) (by simp)
    | some e =>
      obtain ⟨k', v'⟩ := e
      have hkey : k' = k := by simpa using List.find?_some hfind
      subst hkey
      exact ⟨_, rfl, m.key_unique (List.mem_of_find?_eq_some hfind) hmem⟩

theorem find?_eq_none (m : SortedMap κ ν) (k : κ) :
    m.find? k = none ↔ ∀ v, (k, v) ∉ m.entries := by
  rw [Option.eq_none_iff_forall_ne_some]
  exact forall_congr' fun v => not_congr (m.find?_eq_some k v)

theorem mem_insert (m : SortedMap κ ν) (k : κ) (v : ν) (e : κ × ν) :
    e ∈ (m.insert k v).entries ↔ e = (k, v) ∨ e ∈ m.entries ∧ e.1 ≠ k := by
  simp only [insert, List.mem_append, List.mem_cons, List.mem_filter, decide_eq_true_eq]
  constructor
  · rintro (⟨hm, hlt⟩ | rfl | ⟨hm, hlt⟩)
    · exact Or.inr ⟨hm, ne_of_lt hlt⟩
    · exact Or.inl rfl
    · exact Or.inr ⟨hm, ne_of_gt hlt⟩
  · rintro (rfl | ⟨hm, hne⟩)
    · exact Or.inr (Or.inl rfl)
    · rcases lt_or_gt_of_ne hne with h | h
      · exact Or.inl ⟨hm, h⟩
      · exact Or.inr (Or.inr ⟨hm, h⟩)

theorem mem_erase (m : SortedMap κ ν) (k : κ) (e : κ × ν) :
    e ∈ (m.erase k).entries ↔ e ∈ m.entries ∧ e.1 ≠ k := by
  simp [erase, List.mem_filter]

@[simp] theorem find?_empty (k : κ) : (empty : SortedMap κ ν).find? k = none := rfl

theorem find?_insert (m : SortedMap κ ν) (k : κ) (v : ν) (k' : κ) :
    (m.insert k v).find? k' = if k' = k then some v else m.find? k' := by
  ext w
  rw [find?_eq_some, mem_insert]
  split_ifs with h
  · subst h; simp [eq_comm]
  · simp [h]

theorem find?_erase (m : SortedMap κ ν) (k k' : κ) :
    (m.erase k).find? k' = if k' = k then none else m.find? k' := by
  ext w
  rw [find?_eq_some, mem_erase]
  split_ifs with h <;> simp [h]

theorem find?_filterMapVal (m : SortedMap κ ν) (f : ν → Option ν) (k : κ) :
    (m.filterMapVal f).find? k = (m.find? k).bind f := by
  ext w
  rw [find?_eq_some, Option.bind_eq_some_iff]
  simp only [filterMapVal, List.mem_filterMap, Option.map_eq_some_iff, find?_eq_some]
  constructor
  · rintro ⟨⟨k', v⟩, hmem, w', hw, heq⟩
    obtain ⟨rfl, rfl⟩ := Prod.mk.inj heq
    exact ⟨v, hmem, hw⟩
  · rintro ⟨v, hmem, hw⟩
    exact ⟨(k, v), hmem, w, hw, rfl⟩

theorem contains_iff (m : SortedMap κ ν) (k : κ) :
    m.contains k = true ↔ ∃ v, m.find? k = some v := Option.isSome_iff_exists

theorem isEmpty_iff (m : SortedMap κ ν) : m.isEmpty = true ↔ ∀ k, m.find? k = none := by
  rw [isEmpty, List.isEmpty_iff, List.eq_nil_iff_forall_not_mem]
  exact ⟨fun h k => (m.find?_eq_none k).mpr fun v => h (k, v),
    fun h e => (m.find?_eq_none e.1).mp (h e.1) e.2⟩

/-! ### Entries up to order -/

theorem entries_nodup (m : SortedMap κ ν) : m.entries.Nodup := List.Nodup.of_map Prod.fst m.keys_nodup

/-- After an insertion the entries are the new one and those of the other keys. -/
theorem insert_perm (m : SortedMap κ ν) (k : κ) (v : ν) :
    (m.insert k v).entries.Perm ((k, v) :: (m.erase k).entries) := by
  have hnd : ((k, v) :: (m.erase k).entries).Nodup :=
    List.nodup_cons.mpr ⟨fun h => ((m.mem_erase k _).mp h).2 rfl, (m.erase k).entries_nodup⟩
  refine (List.perm_ext_iff_of_nodup (m.insert k v).entries_nodup hnd).mpr fun e => ?_
  rw [mem_insert, List.mem_cons, mem_erase]

theorem find?_perm {m : SortedMap κ ν} {k : κ} {v : ν} (h : m.find? k = some v) :
    m.entries.Perm ((k, v) :: (m.erase k).entries) := by
  have hmem := (m.find?_eq_some k v).mp h
  have hnd : ((k, v) :: (m.erase k).entries).Nodup :=
    List.nodup_cons.mpr ⟨fun h => ((m.mem_erase k _).mp h).2 rfl, (m.erase k).entries_nodup⟩
  refine (List.perm_ext_iff_of_nodup m.entries_nodup hnd).mpr fun e => ?_
  rw [List.mem_cons, mem_erase]
  constructor
  · intro he
    by_cases hk : e.1 = k
    · exact Or.inl (Prod.ext hk (m.key_unique (hk ▸ he) hmem))
    · exact Or.inr ⟨he, hk⟩
  · rintro (rfl | ⟨he, _⟩)
    · exact hmem
    · exact he

theorem erase_of_find?_none {m : SortedMap κ ν} {k : κ} (h : m.find? k = none) : m.erase k = m := by
  refine SortedMap.ext (List.filter_eq_self.mpr fun e he => ?_)
  have hne : e.1 ≠ k := fun hk => (m.find?_eq_none k).mp h e.2 (hk ▸ he)
  simpa using hne

/-! ### Sums over the entries -/

/-- The sum of a weight over the entries. -/
def total (m : SortedMap κ ν) (f : κ × ν → ℕ) : ℕ := (m.entries.map f).sum

theorem total_insert (m : SortedMap κ ν) (k : κ) (v : ν) (f : κ × ν → ℕ) :
    (m.insert k v).total f = f (k, v) + (m.erase k).total f := by
  rw [total, ((m.insert_perm k v).map f).sum_eq, List.map_cons, List.sum_cons, total]

/-- The weight of one key, counted apart; `v` stands for a missing entry and weighs nothing. -/
theorem total_eq_add_erase (m : SortedMap κ ν) (k : κ) {v : ν} {f : κ × ν → ℕ}
    (hv : f (k, v) = 0) : m.total f = f (k, (m.find? k).getD v) + (m.erase k).total f := by
  cases hfind : m.find? k with
  | none => rw [Option.getD_none, hv, Nat.zero_add, erase_of_find?_none hfind]
  | some w =>
    rw [total, ((find?_perm hfind).map f).sum_eq, List.map_cons, List.sum_cons, total,
      Option.getD_some]

/-! ### List surgery around one entry -/

theorem filter_lt_split {l r : List (κ × ν)} {k : κ} (hl : ∀ e ∈ l, e.1 < k)
    (hr : ∀ e ∈ r, ¬ e.1 < k) : (l ++ r).filter (fun e => decide (e.1 < k)) = l := by
  rw [List.filter_append, List.filter_eq_self.mpr (by simpa using hl),
    List.filter_eq_nil_iff.mpr (by simpa using hr), List.append_nil]

theorem filter_gt_split {l r : List (κ × ν)} {k : κ} (hl : ∀ e ∈ l, ¬ k < e.1)
    (hr : ∀ e ∈ r, k < e.1) : (l ++ r).filter (fun e => decide (k < e.1)) = r := by
  rw [List.filter_append, List.filter_eq_nil_iff.mpr (by simpa using hl),
    List.filter_eq_self.mpr (by simpa using hr), List.nil_append]

/-- Around an entry of a sorted list, everything before is smaller and everything after larger. -/
theorem Sorted.split {l r : List (κ × ν)} {e : κ × ν} (h : Sorted (l ++ e :: r)) :
    (∀ x ∈ l, x.1 < e.1) ∧ (∀ x ∈ r, e.1 < x.1) := by
  obtain ⟨_, hr, hlr⟩ := List.pairwise_append.mp h
  exact ⟨fun x hx => hlr x hx e (List.mem_cons_self ..), (List.pairwise_cons.mp hr).1⟩

variable {m : SortedMap κ ν} {l r : List (κ × ν)} {k : κ} {v : ν}

/-- Inserting a key that falls between `l` and `r`. -/
theorem insert_between (h : m.entries = l ++ r) (hl : ∀ e ∈ l, e.1 < k) (hr : ∀ e ∈ r, k < e.1)
    (v : ν) : (m.insert k v).entries = l ++ (k, v) :: r := by
  simp only [insert, h]
  rw [filter_lt_split hl fun e he => not_lt_of_gt (hr e he),
    filter_gt_split (fun e he => not_lt_of_gt (hl e he)) hr]

/-- Overwriting the value of a present key. -/
theorem insert_split (h : m.entries = l ++ (k, v) :: r) (w : ν) :
    (m.insert k w).entries = l ++ (k, w) :: r := by
  obtain ⟨hl, hr⟩ := Sorted.split (h ▸ m.sorted)
  have hr' : ∀ e ∈ (k, v) :: r, ¬ e.1 < k := by
    intro e he
    rcases List.mem_cons.mp he with rfl | he
    · exact lt_irrefl _
    · exact not_lt_of_gt (hr e he)
  have hgt : (l ++ (k, v) :: r).filter (fun e => decide (k < e.1)) = r := by
    rw [List.append_cons]
    refine filter_gt_split (fun e he => ?_) hr
    rcases List.mem_append.mp he with he | he
    · exact not_lt_of_gt (hl e he)
    · rw [List.mem_singleton.mp he]; exact lt_irrefl _
  simp only [insert, h]
  rw [filter_lt_split hl hr', hgt]

theorem erase_split (h : m.entries = l ++ (k, v) :: r) : (m.erase k).entries = l ++ r := by
  obtain ⟨hl, hr⟩ := Sorted.split (h ▸ m.sorted)
  simp only [erase, h, List.filter_append]
  rw [List.filter_eq_self.mpr (by simpa using fun a b hab => ne_of_lt (hl (a, b) hab)),
    List.filter_cons_of_neg (by simp),
    List.filter_eq_self.mpr (by simpa using fun a b hab => ne_of_gt (hr (a, b) hab))]

theorem prev?_split (h : m.entries = l ++ (k, v) :: r) : m.prev? k = l.getLast? := by
  obtain ⟨hl, hr⟩ := Sorted.split (h ▸ m.sorted)
  rw [prev?, h, filter_lt_split hl]
  intro e he
  rcases List.mem_cons.mp he with rfl | he
  · exact lt_irrefl _
  · exact not_lt_of_gt (hr e he)

theorem next?_split (h : m.entries = l ++ (k, v) :: r) : m.next? k = r.head? := by
  obtain ⟨hl, hr⟩ := Sorted.split (h ▸ m.sorted)
  rw [next?, h, List.append_cons, filter_gt_split _ hr]
  intro e he
  rcases List.mem_append.mp he with he | he
  · exact not_lt_of_gt (hl e he)
  · rw [List.mem_singleton.mp he]; exact lt_irrefl _

/-- The next key is the least one above. -/
theorem next?_le {e : κ × ν} (h : m.next? k = some e) :
    k < e.1 ∧ ∀ k', m.contains k' = true → k < k' → e.1 ≤ k' := by
  rw [next?] at h
  obtain ⟨rest, hrest⟩ := List.head?_eq_some_iff.mp h
  have hsorted : Sorted (e :: rest) := hrest ▸ m.sorted.filter _
  have habove : ∀ x ∈ m.entries, k < x.1 → x ∈ e :: rest := fun x hx hlt =>
    hrest ▸ List.mem_filter.mpr ⟨hx, decide_eq_true hlt⟩
  have he : e ∈ m.entries.filter fun e => decide (k < e.1) := hrest ▸ List.mem_cons_self
  refine ⟨of_decide_eq_true (List.mem_filter.mp he).2, fun k' hk' hlt => ?_⟩
  obtain ⟨v, hv⟩ := (m.contains_iff k').mp hk'
  rcases List.mem_cons.mp (habove _ ((m.find?_eq_some _ _).mp hv) hlt) with rfl | hmem
  · exact le_rfl
  · exact ((List.pairwise_cons.mp hsorted).1 _ hmem).le

theorem next?_eq_none : m.next? k = none ↔ ∀ k', m.contains k' = true → ¬ k < k' := by
  rw [next?, List.head?_eq_none_iff, List.filter_eq_nil_iff]
  constructor
  · intro h k' hk' hlt
    obtain ⟨v, hv⟩ := (m.contains_iff k').mp hk'
    exact h _ ((m.find?_eq_some _ _).mp hv) (decide_eq_true hlt)
  · intro h e he hlt
    exact h e.1 ((m.contains_iff _).mpr ⟨e.2, (m.find?_eq_some _ _).mpr he⟩) (of_decide_eq_true hlt)

end SortedMap
