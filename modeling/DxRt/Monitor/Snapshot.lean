import DxRt.Monitor.SharedMemory

/-! What the readers of the monitor's memory can rely on.

    The counter is even when nothing is being written, unless a writer has crashed in between. A copy
    is a snapshot if its first load of the counter fell outside of every write: from then on any
    write changes the counter, and only the stores of `GetDeviceData`, which are made outside of the
    writes, and a counter that comes back to an old value can still spoil it. -/

namespace DxRt.Monitor

/-! ### Consistent reads, and the runs that have them -/

/-- The thread is between `BeginWrite` and `EndWrite`, and its process is alive. -/
def Work.inProgress (s : State) : Work → Bool
  | .writer p (.load ..) | .writer p (.write ..) => decide (s.writer = some p)
  | _ => false

/-- The counter is even whenever no write is in progress; and what was returned is what the memory
    held at one moment at which none was. -/
structure Consistent (c : Workers.Config State Work) : Prop where
  counted : c.shared.writing = c.work.countP (Work.inProgress c.shared)
  even : (∀ w ∈ c.work, w.inProgress c.shared = false) → c.shared.sequence.toNat % 2 = 0
  snapshot : ∀ r ∈ c.shared.returned, ∃ m ∈ c.shared.moments, r.Of m

/-- A read finds an even counter only when nothing is being written, and the counter does not come
    back to what a read in progress has loaded. While a read is in progress that has loaded the
    counter as it is, `GetDeviceData` adds a device only behind those that are published, and does
    not lower their number. -/
def Orderly (s : State) : Work → Circumstances → Prop
  | .reader (.loadSequence ..), _ =>
    s.sequence.toNat % 2 = 0 → s.writing = 0 ∧ s.resetting = false
  | .writer _ (.beginWrite ..), _ | .writer _ (.write _ []), _ => s.sequence + 1 ∉ s.reading
  | .writer _ (.reset (.sequence :: _)), _ => 0 ∉ s.reading
  | .writer _ (.addId _ _ i), _ | .writer _ (.addActive _ i), _ =>
    s.sequence ∈ s.reading → s.contents.deviceCount ≤ i
  | .writer _ (.addStore _ _ count), _ =>
    s.sequence ∈ s.reading → s.contents.deviceCount ≤ count + 1
  | _, _ => True

/-- A writer crashes between its writes. -/
def OrderlyArrival (s : State) : Arrival → Prop
  | .crash => s.writing = 0
  | _ => True

instance (s : State) : ∀ w e, Decidable (Orderly s w e)
  | .reader (.loadSequence ..), _ => inferInstanceAs (Decidable (_ = _ → _ = _ ∧ _ = _))
  | .writer _ (.beginWrite ..), _ | .writer _ (.write _ []), _ =>
    inferInstanceAs (Decidable (_ ∉ _))
  | .writer _ (.reset (.sequence :: _)), _ => inferInstanceAs (Decidable (_ ∉ _))
  | .writer _ (.addId ..), _ | .writer _ (.addActive ..), _ | .writer _ (.addStore ..), _ =>
    inferInstanceAs (Decidable (_ ∈ _ → _ ≤ _))
  | .writer _ .start, _ | .writer _ (.reset []), _ | .writer _ (.reset (.formatted :: _)), _
  | .writer _ (.reset (.writerPid :: _)), _ | .writer _ (.reset (.deviceCount :: _)), _
  | .writer _ (.reset (.field .. :: _)), _ | .writer _ .publish, _ | .writer _ (.getDevice ..), _
  | .writer _ (.checkId ..), _ | .writer _ (.addCheck ..), _ | .writer _ (.addIndex ..), _
  | .writer _ (.addLoad ..), _ | .writer _ (.load ..), _ | .writer _ (.write _ (_ :: _)), _
  | .reader (.scan ..), _ | .reader (.checkDevice ..), _ | .reader (.copyDevice ..), _
  | .reader (.count ..), _ | .reader (.copyAll ..), _ | .reader (.compare ..), _ => .isTrue trivial

instance (s : State) : ∀ a, Decidable (OrderlyArrival s a)
  | .crash => inferInstanceAs (Decidable (_ = _))
  | .startWriter | .update .. | .read _ => .isTrue trivial

/-! ### Copies -/

/-- Devices may have been published, and those that were are as they were. -/
structure Grows (m m' : Contents) : Prop where
  count : m.deviceCount ≤ m'.deviceCount
  devices : ∀ i < m.deviceCount, m'.devices i = m.devices i

/-- What a reader has loaded from the counter. -/
def ReaderThread.seq1 : ReaderThread → Option UInt64
  | .loadSequence .. => none
  | .scan _ v _ | .checkDevice _ v _ | .copyDevice _ v .. | .count _ v | .copyAll _ v .. |
    .compare _ v _ => some v

def Work.seq1 : Work → Option UInt64
  | .writer .. => none
  | .reader t => t.seq1

/-- What a reader has copied so far is what the memory says, as long as the counter has not changed
    since. -/
def Clean (s : State) : ReaderThread → Prop
  | .checkDevice _ _ i => i < s.contents.deviceCount
  | .copyDevice deviceId _ i todo data => i < s.contents.deviceCount ∧
    s.contents.devices i .deviceId = deviceId.toUInt64 ∧
    ∀ f, f ∈ todo ∨ data f = s.contents.devices i f
  | .copyAll maxCount _ count todo data => ∃ m ∈ s.moments, count = min m.deviceCount maxCount ∧
    Grows m s.contents ∧ ∀ i < count, ∀ f, (i, f) ∈ todo ∨ data i f = s.contents.devices i f
  | .compare _ _ (some r) => ∃ m ∈ s.moments, r.Of m
  | _ => True

variable {s s' : State} {p : ℕ} {t : WriterThread} {rest : List Work}

theorem Grows.refl (m : Contents) : Grows m m := ⟨le_rfl, fun _ _ => rfl⟩

theorem Grows.trans {m m' m'' : Contents} (h : Grows m m') (h' : Grows m' m'') : Grows m m'' :=
  ⟨h.count.trans h'.count, fun i hi =>
    (h'.devices i (lt_of_lt_of_le hi h.count)).trans (h.devices i hi)⟩

theorem grows_set {m : Contents} {i : ℕ} (h : m.deviceCount ≤ i) (f : Field) (v : UInt64) :
    Grows m (m.set i f v) := by
  refine ⟨le_rfl, fun j hj => funext fun g => if_neg ?_⟩
  rintro ⟨rfl, -⟩
  exact absurd hj (not_lt.mpr h)

theorem grows_count {m : Contents} {count : ℕ} (h : m.deviceCount ≤ count) :
    Grows m { m with deviceCount := count } := ⟨h, fun _ _ => rfl⟩

theorem Clean.mono {t : ReaderThread} (h : Clean s t) (hgrows : Grows s.contents s'.contents)
    (hmoments : ∀ m ∈ s.moments, m ∈ s'.moments) : Clean s' t := by
  cases t with
  | loadSequence | scan | count => trivial
  | checkDevice deviceId v i => exact lt_of_lt_of_le h hgrows.count
  | copyDevice deviceId v i todo data =>
    obtain ⟨hi, hid, hdata⟩ := h
    rw [← hgrows.devices i hi] at hid
    refine ⟨lt_of_lt_of_le hi hgrows.count, hid, fun f => ?_⟩
    rw [hgrows.devices i hi]
    exact hdata f
  | copyAll maxCount v count todo data =>
    obtain ⟨m, hm, hcount, hold, hdata⟩ := h
    refine ⟨m, hmoments m hm, hcount, hold.trans hgrows, fun i hi f => ?_⟩
    have hlt : i < s.contents.deviceCount :=
      lt_of_lt_of_le (lt_of_lt_of_le hi (hcount ▸ min_le_left _ _)) hold.count
    rw [hgrows.devices i hlt]
    exact hdata i hi f
  | compare request v result =>
    cases result with
    | none => trivial
    | some r =>
      obtain ⟨m, hm, hr⟩ := h
      exact ⟨m, hmoments m hm, hr⟩

/-! ### The invariant -/

def Work.live (s : State) : Work → Bool
  | .writer p _ => decide (s.writer = some p)
  | .reader _ => false

/-- In `Initialize`. -/
def WriterThread.starting : WriterThread → Bool
  | .start | .reset _ | .publish => true
  | _ => false

/-- Between `BeginWrite` and `EndWrite`. -/
def WriterThread.writes : WriterThread → Bool
  | .load .. | .write .. => true
  | _ => false

/-- A process has one thread until it has initialised the memory. The counter has the parity of the
    number of writes in progress; and when a read has loaded it as it is, there is none. -/
structure Held (s : State) (work : List Work) : Prop where
  fresh : ∀ p t, .writer p t ∈ work → p < s.processes
  current : ∀ p, s.writer = some p → p < s.processes
  starting : ∀ p t, .writer p t ∈ work → s.writer = some p → t.starting = !s.initialized
  alone : s.initialized = false → work.countP (Work.live s) ≤ 1
  counted : s.writing = work.countP (Work.inProgress s)
  parity : s.sequence.toNat % 2 = s.writing % 2
  reset : ∀ p l, .writer p (.reset l) ∈ work → s.writer = some p →
    l = resetStores ∨ s.resetting = true
  reading : (work.filterMap Work.seq1).Perm s.reading
  quiet : s.sequence ∈ s.reading → s.writing = 0 ∧ s.resetting = false
  clean : ∀ t, .reader t ∈ work → t.seq1 = some s.sequence → Clean s t
  returned : ∀ r ∈ s.returned, ∃ m ∈ s.moments, r.Of m
  idle : s.writer = none → s.initialized = false

/-- The contents as they are belong to a moment, if nothing is being written. -/
structure Inv (s : State) (work : List Work) : Prop extends Held s work where
  now : s.writing = 0 → s.resetting = false → s.contents ∈ s.moments

theorem Inv.consistent {c : Workers.Config State Work} (h : Inv c.shared c.work) : Consistent c where
  counted := h.counted
  even hnone := by
    rw [h.parity, h.counted, List.countP_eq_zero.mpr fun w hw => by simp [hnone w hw]]
  snapshot := h.returned

theorem inv_init (contents : Contents) {sequence : UInt64} (heven : sequence.toNat % 2 = 0)
    (formatted writerPid : Bool) : Inv (State.idle contents sequence formatted writerPid) [] where
  fresh _ _ h := nomatch h
  current _ h := nomatch h
  starting _ _ h := nomatch h
  alone _ := Nat.zero_le _
  counted := rfl
  parity := heven
  reset _ _ h := nomatch h
  reading := .nil
  quiet h := nomatch h
  now _ _ := List.mem_singleton.mpr rfl
  clean _ h := nomatch h
  returned _ h := nomatch h
  idle _ := rfl

theorem Inv.perm {work work' : List Work} (h : Inv s work) (hp : work.Perm work') :
    Inv s work' where
  fresh p t hmem := h.fresh p t (hp.mem_iff.mpr hmem)
  current := h.current
  starting p t hmem := h.starting p t (hp.mem_iff.mpr hmem)
  alone hinit := hp.countP_eq _ ▸ h.alone hinit
  counted := hp.countP_eq _ ▸ h.counted
  parity := h.parity
  reset p l hmem := h.reset p l (hp.mem_iff.mpr hmem)
  reading := (hp.symm.filterMap _).trans h.reading
  quiet := h.quiet
  now := h.now
  clean t hmem := h.clean t (hp.mem_iff.mpr hmem)
  returned := h.returned
  idle := h.idle

/-! ### Moments -/

theorem observe_eq (s : State) : s.observe = { s with moments := s.observe.moments } := by
  rw [State.observe]
  split_ifs <;> rfl

theorem mem_observe {m : Contents} (h : m ∈ s.moments) : m ∈ s.observe.moments := by
  rw [State.observe]
  split_ifs
  · exact List.mem_cons_of_mem _ h
  · exact h

theorem now_observe (hwriting : s.writing = 0) (hresetting : s.resetting = false) :
    s.contents ∈ s.observe.moments := by
  rw [State.observe, if_pos ⟨hwriting, hresetting⟩]
  exact List.mem_cons_self ..

theorem Held.observe {work : List Work} (h : Held s work) : Inv s.observe work := by
  have hclean : ∀ t, Clean s t → Clean s.observe t := fun t ht =>
    ht.mono (by rw [observe_eq]; exact .refl _) fun m => mem_observe
  have hnow := fun hw hr => now_observe (s := s) hw hr
  obtain ⟨h₁, h₂, h₃, h₄, h₅, h₆, h₇, h₈, h₉, h₁₀, h₁₁, h₁₂⟩ := h
  have hlive : Work.live s.observe = Work.live s := by
    rw [observe_eq]
    rfl
  have hprogress : Work.inProgress s.observe = Work.inProgress s := by
    rw [observe_eq]
    funext w
    cases w <;> rfl
  rw [observe_eq] at hclean hlive hprogress ⊢
  exact ⟨⟨h₁, h₂, h₃, hlive ▸ h₄, hprogress ▸ h₅, h₆, h₇, h₈, h₉, fun t hmem hseq =>
    hclean t (h₁₀ t hmem hseq), fun r hr => (h₁₁ r hr).imp fun m hm =>
      ⟨mem_observe hm.1, hm.2⟩, h₁₂⟩, hnow⟩

/-! ### Threads of the writer -/

/-- What a step of a writer leaves to the readers: either the counter is not what any of them has
    loaded, or it has not changed, and the published devices are as they were. -/
structure Effect (s s' : State) : Prop where
  reading : s'.reading = s.reading
  returned : s'.returned = s.returned
  moments : s'.moments = s.moments
  sequence : s'.sequence ∉ s.reading ∨
    s'.sequence = s.sequence ∧ (s.sequence ∈ s.reading → Grows s.contents s'.contents)

/-- The process and the threads of a writer. -/
structure SameWriter (s s' : State) : Prop where
  writer : s'.writer = s.writer
  processes : s'.processes = s.processes
  initialized : s'.initialized = s.initialized

theorem inProgress_writer (hp : s.writer = some p) (t : WriterThread) :
    Work.inProgress s (.writer p t) = t.writes := by
  cases t <;> simp [Work.inProgress, WriterThread.writes, hp]

theorem countP_inProgress (hp : s.writer = some p) (threads : List WriterThread) :
    (threads.map (Work.writer p)).countP (Work.inProgress s) =
      threads.countP WriterThread.writes := by
  rw [List.countP_map]
  exact List.countP_congr fun t _ => by rw [Function.comp_apply, inProgress_writer hp]

theorem Held.mem_reading {work : List Work} (h : Held s work) {t : ReaderThread} {v : UInt64}
    (hmem : .reader t ∈ work) (hv : t.seq1 = some v) : v ∈ s.reading :=
  h.reading.mem_iff.mp (List.mem_filterMap.mpr ⟨_, hmem, hv⟩)

/-- What the readers have copied is still good. -/
theorem Held.clean_of_effect {work : List Work} (h : Held s work) (heff : Effect s s')
    {t : ReaderThread} (hmem : .reader t ∈ work) (hseq : t.seq1 = some s'.sequence) :
    Clean s' t := by
  have hin := h.mem_reading hmem hseq
  rcases heff.sequence with hnot | ⟨heq, hgrows⟩
  · exact absurd hin hnot
  · rw [heq] at hseq hin
    exact (h.clean t hmem hseq).mono (hgrows hin) fun m hm => heff.moments ▸ hm

theorem SameWriter.live_eq (hsame : SameWriter s s') : Work.live s' = Work.live s := by
  funext w
  cases w with
  | writer q t' => rw [Work.live, Work.live, hsame.writer]
  | reader t' => rfl

theorem SameWriter.inProgress_eq (hsame : SameWriter s s') :
    Work.inProgress s' = Work.inProgress s := by
  funext w
  rcases w with ⟨q, t'⟩ | t'
  · cases t' <;> simp only [Work.inProgress, hsame.writer]
  · rfl

/-- While a thread initialises the memory, there is no other thread of a writer. -/
theorem Held.last (h : Held s (.writer p t :: rest)) (hp : s.writer = some p)
    (hinit : s.initialized = false) : rest.countP (Work.live s) = 0 := by
  have halone := h.alone hinit
  rw [List.countP_cons_of_pos (by simp [Work.live, hp])] at halone
  omega

theorem Held.not_starting {q : ℕ} {t' : WriterThread} (h : Held s (.writer p t :: rest))
    (hp : s.writer = some p) (hmem : .writer q t' ∈ rest) (hq : s.writer = some q) :
    t.starting = false := by
  rw [h.starting p t (List.mem_cons_self ..) hp, Bool.not_eq_false']
  by_contra hinit
  have hnone := List.countP_eq_zero.mp (h.last hp (by simpa using hinit)) _ hmem
  simp [Work.live, hq] at hnone

/-- A thread that goes on as at most one thread is alone where it was. -/
theorem Held.alone_map {n : List WriterThread} (h : Held s (.writer p t :: rest))
    (hp : s.writer = some p) (hlength : n.length ≤ 1) (hinit : s.initialized = false) :
    (n.map (Work.writer p) ++ rest).countP (Work.live s) ≤ 1 := by
  have hle := List.countP_le_length (l := n.map (Work.writer p)) (p := Work.live s)
  rw [List.length_map] at hle
  rw [List.countP_append, h.last hp hinit]
  omega

theorem filterMap_seq1_writers (p : ℕ) (n : List WriterThread) :
    (n.map (Work.writer p)).filterMap Work.seq1 = [] := by
  rw [List.filterMap_map]
  exact List.filterMap_eq_nil_iff.mpr fun _ _ => rfl

theorem mem_map_writer {n : List WriterThread} {q : ℕ} {t' : WriterThread}
    (hmem : .writer q t' ∈ n.map (Work.writer p) ++ rest) :
    q = p ∧ t' ∈ n ∨ .writer q t' ∈ rest := by
  rcases List.mem_append.mp hmem with hin | hin
  · obtain ⟨t'', hin', heq⟩ := List.mem_map.mp hin
    cases heq
    exact Or.inl ⟨rfl, hin'⟩
  · exact Or.inr hin

/-- A thread of a writer goes on, by one step. -/
theorem Inv.writer {n : List WriterThread} (h : Inv s (.writer p t :: rest))
    (hp : s.writer = some p) (hsame : SameWriter s s') (heff : Effect s s')
    (hlength : n.length ≤ 1) (hstarting : ∀ t' ∈ n, t'.starting = t.starting)
    (hcounted : s'.writing + (if t.writes then 1 else 0) =
      s.writing + n.countP WriterThread.writes)
    (hparity : s'.sequence.toNat % 2 = s'.writing % 2)
    (hreset : ∀ l, .reset l ∈ n → l = resetStores ∨ s'.resetting = true)
    (hresetting : t.starting = false → s'.resetting = s.resetting)
    (hquiet : s'.sequence ∈ s.reading → s'.writing = 0 ∧ s'.resetting = false) :
    Inv s'.observe (n.map (.writer p) ++ rest) := by
  refine Held.observe ⟨fun q t' hmem => ?_, fun q hq => ?_, fun q t' hmem hq => ?_,
    fun hinit => ?_, ?_, hparity, fun q l hmem hq => ?_, ?_, fun hmem => ?_,
    fun t' hmem hseq => ?_, ?_, fun hnone => ?_⟩
  · rw [hsame.processes]
    rcases mem_map_writer hmem with ⟨rfl, -⟩ | hin
    · exact h.current q hp
    · exact h.fresh q t' (List.mem_cons_of_mem _ hin)
  · rw [hsame.processes]
    exact h.current q (hsame.writer ▸ hq)
  · rw [hsame.initialized]
    rcases mem_map_writer hmem with ⟨-, hin⟩ | hin
    · rw [hstarting _ hin, h.starting p t (List.mem_cons_self ..) hp]
    · exact h.starting q t' (List.mem_cons_of_mem _ hin) (hsame.writer ▸ hq)
  · rw [hsame.live_eq]
    exact h.alone_map hp hlength (hsame.initialized ▸ hinit)
  · have hold := h.counted
    rw [List.countP_cons, inProgress_writer hp] at hold
    rw [hsame.inProgress_eq, List.countP_append, countP_inProgress hp]
    omega
  · rcases mem_map_writer hmem with ⟨-, hin⟩ | hin
    · exact hreset l hin
    · rw [hsame.writer] at hq
      rw [hresetting (h.not_starting hp hin hq)]
      exact h.reset q l (List.mem_cons_of_mem _ hin) hq
  · rw [List.filterMap_append, filterMap_seq1_writers, heff.reading]
    exact h.reading
  · rw [heff.reading] at hmem
    exact hquiet hmem
  · rcases List.mem_append.mp hmem with hin | hin
    · obtain ⟨t'', -, heq⟩ := List.mem_map.mp hin
      cases heq
    · exact h.clean_of_effect heff (List.mem_cons_of_mem _ hin) hseq
  · rw [heff.returned, heff.moments]
    exact h.returned
  · rw [hsame.writer, hp] at hnone
    cases hnone

theorem Effect.refl (s : State) : Effect s s :=
  ⟨rfl, rfl, rfl, Or.inr ⟨rfl, fun _ => .refl _⟩⟩

/-- A thread goes on without touching the memory. -/
theorem Inv.stay {new : List WriterThread} (h : Inv s (.writer p t :: rest))
    (hp : s.writer = some p) (hlength : new.length ≤ 1)
    (hstarting : ∀ t' ∈ new, t'.starting = t.starting)
    (hcounted : (if t.writes then 1 else 0) = new.countP WriterThread.writes)
    (hreset : ∀ l, .reset l ∈ new → l = resetStores) :
    Inv s.observe (new.map (.writer p) ++ rest) :=
  h.writer hp ⟨rfl, rfl, rfl⟩ (.refl s) hlength hstarting (congrArg (s.writing + ·) hcounted)
    h.parity (fun l hl => Or.inl (hreset l hl)) (fun _ => rfl) h.quiet

/-- Nothing is written before the memory is initialised. -/
theorem Held.writing_eq_zero {work : List Work} (h : Held s work) (hinit : s.initialized = false) :
    s.writing = 0 := by
  rw [h.counted, List.countP_eq_zero]
  rintro (⟨q, t'⟩ | t') hmem hin
  · have hstart := h.starting q t' hmem
    rw [hinit] at hstart
    cases t' <;> simp_all [Work.inProgress, WriterThread.starting]
  · cases hin

theorem Held.writing_pos (h : Held s (.writer p t :: rest)) (hp : s.writer = some p)
    (ht : t.writes = true) : 0 < s.writing := by
  rw [h.counted, List.countP_cons, inProgress_writer hp, ht]
  exact Nat.succ_pos _

/-- `GetDeviceData` adds a device. -/
theorem Inv.add {t' : WriterThread} {m : Contents} (h : Inv s (.writer p t :: rest))
    (hp : s.writer = some p) (hgrows : s.sequence ∈ s.reading → Grows s.contents m)
    (ht : t.starting = false ∧ t.writes = false) (ht' : t'.starting = false ∧ t'.writes = false) :
    Inv { s with contents := m }.observe (.writer p t' :: rest) := by
  refine h.writer (n := [t']) hp ⟨rfl, rfl, rfl⟩ ⟨rfl, rfl, rfl, Or.inr ⟨rfl, hgrows⟩⟩ le_rfl
    (fun t'' hmem => ?_) ?_ h.parity (fun l hmem => ?_) (fun _ => rfl) h.quiet
  · rw [List.mem_singleton.mp hmem, ht.1, ht'.1]
  · simp [ht.2, ht'.2]
  · rw [← List.mem_singleton.mp hmem] at ht'
    exact absurd ht'.1 (by simp [WriterThread.starting])

theorem Inv.resetStore {store : Store} {stores : List Store} {e : Circumstances}
    (h : Inv s (.writer p (.reset (store :: stores)) :: rest)) (hp : s.writer = some p)
    (hok : Orderly s (.writer p (.reset (store :: stores))) e) :
    Inv { s.reset store with resetting := true }.observe (.writer p (.reset stores) :: rest) := by
  have hinit : s.initialized = false := by
    have hself := h.starting p _ (List.mem_cons_self ..) hp
    simpa [WriterThread.starting] using hself
  have hzero := h.writing_eq_zero hinit
  -- either this is the first store, which sets the counter, or no reader has the counter as it is
  have hsequence : (s.reset store).sequence ∉ s.reading ∧ (s.reset store).sequence.toNat % 2 = 0 := by
    have hrest : store ≠ .sequence → s.sequence ∉ s.reading := by
      intro hne hmem
      rcases h.reset p _ (List.mem_cons_self ..) hp with heq | hresetting
      · exact hne (List.cons.inj heq).1
      · rw [(h.quiet hmem).2] at hresetting
        cases hresetting
    have heven : s.sequence.toNat % 2 = 0 := by rw [h.parity, hzero]
    cases store with
    | sequence => exact ⟨hok, rfl⟩
    | formatted | writerPid | deviceCount | field i f => exact ⟨hrest nofun, heven⟩
  have hframe : (s.reset store).writer = s.writer ∧ (s.reset store).processes = s.processes ∧
      (s.reset store).initialized = s.initialized ∧ (s.reset store).reading = s.reading ∧
      (s.reset store).returned = s.returned ∧ (s.reset store).moments = s.moments ∧
      (s.reset store).writing = s.writing := by
    cases store <;> exact ⟨rfl, rfl, rfl, rfl, rfl, rfl, rfl⟩
  obtain ⟨h₁, h₂, h₃, h₄, h₅, h₆, h₇⟩ := hframe
  refine h.writer (n := [.reset stores]) hp ⟨h₁, h₂, h₃⟩ ⟨h₄, h₅, h₆, Or.inl hsequence.1⟩ le_rfl
    (fun t' hmem => ?_) ?_ ?_ (fun _ _ => Or.inr rfl) nofun fun hmem => absurd hmem hsequence.1
  · rw [List.mem_singleton.mp hmem]
    rfl
  · simp [WriterThread.writes, h₇]
  · show (s.reset store).sequence.toNat % 2 = (s.reset store).writing % 2
    rw [hsequence.2, h₇, hzero]

/-- The end of `Initialize`: the process may have other threads from now on. -/
theorem Inv.publish (h : Inv s (.writer p .publish :: rest)) (hp : s.writer = some p) :
    Inv { s with writerPid := true, initialized := true }.observe rest := by
  refine Held.observe ?_
  have hinit : s.initialized = false := by
    have hself := h.starting p _ (List.mem_cons_self ..) hp
    simpa [WriterThread.starting] using hself
  have hnone : ∀ q t', .writer q t' ∈ rest → s.writer ≠ some q := by
    intro q t' hmem hq
    have hdead := List.countP_eq_zero.mp (h.last hp hinit) _ hmem
    simp [Work.live, hq] at hdead
  refine ⟨fun q t' hmem => h.fresh q t' (List.mem_cons_of_mem _ hmem), h.current,
    fun q t' hmem hq => absurd hq (hnone q t' hmem), nofun, ?_, h.parity,
    fun q l hmem hq => absurd hq (hnone q _ hmem), h.reading, h.quiet, fun t' hmem hseq => ?_,
    h.returned, fun hnone => absurd (hp.symm.trans hnone) nofun⟩
  · have hold := h.counted
    rw [List.countP_cons_of_neg (by simp [Work.inProgress])] at hold
    exact hold
  · exact (h.clean t' (List.mem_cons_of_mem _ hmem) hseq).mono (.refl _) fun _ => id

theorem toNat_succ_mod (v : UInt64) : (v + 1).toNat % 2 = (v.toNat + 1) % 2 := by
  rw [UInt64.toNat_add]
  simp only [UInt64.toNat_one]
  omega

theorem Inv.execWriter {e : Circumstances} (h : Inv s (.writer p t :: rest))
    (hp : s.writer = some p) (hok : Orderly s (.writer p t) e) :
    Inv (writerStep s e t).1.observe ((writerStep s e t).2.map (.writer p) ++ rest) := by
  cases t with
  | start =>
    rw [writerStep]
    split_ifs <;> exact h.stay hp le_rfl (by simp [WriterThread.starting])
      (by simp [WriterThread.writes]) (by simp)
  | getDevice deviceId update i | checkId deviceId update i =>
    rw [writerStep]
    split_ifs <;> exact h.stay hp le_rfl (by simp [WriterThread.starting])
      (by simp [WriterThread.writes]) (by simp)
  | addCheck deviceId update =>
    rw [writerStep]
    split_ifs <;> exact h.stay hp (by simp) (by simp [WriterThread.starting])
      (by simp [WriterThread.writes]) (by simp)
  | addIndex deviceId update | addLoad update i | load update i =>
    exact h.stay hp le_rfl (by simp [writerStep, WriterThread.starting])
      (by simp [writerStep, WriterThread.writes]) (by simp [writerStep])
  | reset stores =>
    cases stores with
    | nil =>
      exact h.writer hp ⟨rfl, rfl, rfl⟩ ⟨rfl, rfl, rfl, Or.inr ⟨rfl, fun _ => .refl _⟩⟩ le_rfl
        (by simp [writerStep, WriterThread.starting]) (by simp [writerStep, WriterThread.writes])
        h.parity (by simp [writerStep]) nofun fun hmem => ⟨(h.quiet hmem).1, rfl⟩
    | cons store stores => exact h.resetStore hp hok
  | publish => exact h.publish hp
  | addId deviceId update i =>
    exact h.add hp (fun hmem => grows_set (hok hmem) _ _) ⟨rfl, rfl⟩ ⟨rfl, rfl⟩
  | addActive update i =>
    exact h.add hp (fun hmem => grows_set (hok hmem) _ _) ⟨rfl, rfl⟩ ⟨rfl, rfl⟩
  | addStore update i count =>
    exact h.add hp (fun hmem => grows_count (hok hmem)) ⟨rfl, rfl⟩ ⟨rfl, rfl⟩
  | beginWrite update i =>
    have hparity := h.parity
    refine h.writer hp ⟨rfl, rfl, rfl⟩ ⟨rfl, rfl, rfl, Or.inl hok⟩ le_rfl
      (by simp [writerStep, WriterThread.starting]) (by simp [writerStep, WriterThread.writes])
      ?_ (by simp [writerStep]) (fun _ => rfl) fun hmem => absurd hmem hok
    show (s.sequence + 1).toNat % 2 = (s.writing + 1) % 2
    rw [toNat_succ_mod]
    omega
  | write i stores =>
    have hpos := h.writing_pos hp rfl
    cases stores with
    | nil =>
      have hparity := h.parity
      refine h.writer hp ⟨rfl, rfl, rfl⟩ ⟨rfl, rfl, rfl, Or.inl hok⟩ (by simp [writerStep])
        (by simp [writerStep]) ?_ ?_ (by simp [writerStep]) (fun _ => rfl)
        fun hmem => absurd hmem hok
      · simp only [writerStep, WriterThread.writes, if_true, List.countP_nil]
        omega
      · show (s.sequence + 1).toNat % 2 = (s.writing - 1) % 2
        rw [toNat_succ_mod]
        omega
    | cons store stores =>
      -- the thread is writing, so that no reader has the counter as it is
      have hnot : s.sequence ∉ s.reading := fun hmem => by
        rw [(h.quiet hmem).1] at hpos
        exact absurd hpos (lt_irrefl 0)
      exact h.writer hp ⟨rfl, rfl, rfl⟩ ⟨rfl, rfl, rfl, Or.inl hnot⟩ le_rfl
        (by simp [writerStep, WriterThread.starting]) (by simp [writerStep, WriterThread.writes])
        h.parity (by simp [writerStep]) (fun _ => rfl) h.quiet

/-! ### Readers -/

variable {r : ReaderThread}

/-- A reader goes on by one step, which may change what it has loaded from the counter. -/
theorem Inv.readers {reading : List UInt64} {returned : List Result} {n : List ReaderThread}
    (h : Inv s (.reader r :: rest))
    (hreading : (n.filterMap ReaderThread.seq1 ++ rest.filterMap Work.seq1).Perm reading)
    (hquiet : s.sequence ∈ reading → s.writing = 0 ∧ s.resetting = false)
    (hclean : ∀ r' ∈ n, r'.seq1 = some s.sequence → Clean s r')
    (hreturned : ∀ result ∈ returned, ∃ m ∈ s.moments, result.Of m) :
    Inv { s with reading, returned }.observe (n.map .reader ++ rest) := by
  have hmem : ∀ {q t}, .writer q t ∈ n.map Work.reader ++ rest →
      .writer q t ∈ Work.reader r :: rest := by
    intro q t hin
    rcases List.mem_append.mp hin with hin | hin
    · obtain ⟨r', -, heq⟩ := List.mem_map.mp hin
      cases heq
    · exact List.mem_cons_of_mem _ hin
  have hcount : ∀ P : Work → Bool, (∀ r', P (.reader r') = false) →
      (n.map Work.reader ++ rest).countP P = (Work.reader r :: rest).countP P := by
    intro P hP
    rw [List.countP_append, List.countP_cons_of_neg (by simp [hP]), List.countP_map,
      List.countP_eq_zero.mpr fun r' _ => by simp [hP], Nat.zero_add]
  refine Held.observe ⟨fun q t hin => h.fresh q t (hmem hin), h.current, fun q t hin =>
    h.starting q t (hmem hin), fun hinit => ?_, ?_, h.parity, fun q l hin => h.reset q l (hmem hin),
    ?_, hquiet, fun r' hin hv => ?_, hreturned, h.idle⟩
  · exact (hcount (Work.live s) fun _ => rfl).trans_le (h.alone hinit)
  · exact h.counted.trans (hcount (Work.inProgress s) fun _ => rfl).symm
  · rw [List.filterMap_append, List.filterMap_map]
    exact hreading
  · refine Clean.mono (s := s) ?_ (.refl _) fun _ => id
    rcases List.mem_append.mp hin with hin | hin
    · obtain ⟨r'', hin', heq⟩ := List.mem_map.mp hin
      obtain rfl := Work.reader.inj heq
      exact hclean _ hin' hv
    · exact h.clean r' (List.mem_cons_of_mem _ hin) hv

/-- A reader goes on with what it has loaded from the counter. -/
theorem Inv.reader {r' : ReaderThread} (h : Inv s (.reader r :: rest)) (hseq : r'.seq1 = r.seq1)
    (hclean : r.seq1 = some s.sequence → Clean s r → Clean s r') :
    Inv s.observe (.reader r' :: rest) := by
  show Inv { s with reading := s.reading, returned := s.returned }.observe
    ([r'].map .reader ++ rest)
  refine h.readers ?_ h.quiet (fun r'' hmem hv => ?_) h.returned
  · have hreading := h.reading
    rw [List.filterMap_cons, Work.seq1] at hreading
    rw [List.filterMap_cons, hseq]
    cases hr : r.seq1 with
    | none => rwa [hr] at hreading
    | some v => rwa [hr] at hreading
  · obtain rfl := List.mem_singleton.mp hmem
    rw [hseq] at hv
    exact hclean hv (h.clean r (List.mem_cons_self ..) hv)

/-- The counter is loaded; when it is even, nothing is being written. -/
theorem Inv.loadSequence {request : Request} {retries : ℕ} {e : Circumstances}
    (h : Inv s (.reader (.loadSequence request retries) :: rest))
    (hok : Orderly s (.reader (.loadSequence request retries)) e) :
    Inv (readerStep s (.loadSequence request retries)).1.observe
      ((readerStep s (.loadSequence request retries)).2.map .reader ++ rest) := by
  have hreading : (rest.filterMap Work.seq1).Perm s.reading := h.reading
  simp only [readerStep]
  split_ifs with hodd hretries
  · exact h.readers (n := []) hreading h.quiet nofun h.returned
  · exact h.reader rfl fun _ => id
  · have hquiet := hok (by omega)
    cases request with
    | device deviceId =>
      exact h.readers (n := [.scan deviceId s.sequence 0]) (hreading.cons _) (fun _ => hquiet)
        (fun r' hmem _ => by rw [List.mem_singleton.mp hmem]; trivial) h.returned
    | all maxCount =>
      exact h.readers (n := [.count maxCount s.sequence]) (hreading.cons _) (fun _ => hquiet)
        (fun r' hmem _ => by rw [List.mem_singleton.mp hmem]; trivial) h.returned

variable {deviceId : UInt32} {maxCount count i : ℕ} {v : UInt64} {f : Field}

theorem Clean.copyField {todo : List Field} {data : MonitorDeviceData}
    (h : Clean s (.copyDevice deviceId v i (f :: todo) data)) :
    Clean s (.copyDevice deviceId v i todo fun g =>
      if g = f then s.contents.devices i f else data g) := by
  obtain ⟨hi, hid, hdata⟩ := h
  refine ⟨hi, hid, fun g => ?_⟩
  by_cases hg : g = f
  · exact Or.inr ((if_pos hg).trans (by rw [hg]))
  · exact (hdata g).imp (fun hmem => (List.mem_cons.mp hmem).resolve_left hg) (if_neg hg).trans

/-- A whole device has been copied while nothing was being written. -/
theorem Clean.copied {data : MonitorDeviceData} {request : Request}
    (h : Clean s (.copyDevice deviceId v i [] data)) (hnow : s.contents ∈ s.moments) :
    Clean s (.compare request v (some (.device deviceId data))) := by
  obtain ⟨hi, hid, hdata⟩ := h
  have heq : data = s.contents.devices i := funext fun f => (hdata f).resolve_left (by simp)
  exact ⟨s.contents, hnow, i, hi, heq, by rw [heq, hid]⟩

theorem Clean.copyEntry {todo : List (ℕ × Field)} {data : ℕ → MonitorDeviceData}
    (h : Clean s (.copyAll maxCount v count ((i, f) :: todo) data)) :
    Clean s (.copyAll maxCount v count todo fun j g =>
      if j = i ∧ g = f then s.contents.devices i f else data j g) := by
  obtain ⟨m, hm, hcount, hgrows, hdata⟩ := h
  refine ⟨m, hm, hcount, hgrows, fun j hj g => ?_⟩
  by_cases hentry : j = i ∧ g = f
  · exact Or.inr ((if_pos hentry).trans (by rw [hentry.1, hentry.2]))
  · exact (hdata j hj g).imp (fun hmem => (List.mem_cons.mp hmem).resolve_left fun heq =>
      hentry (Prod.mk.inj heq)) (if_neg hentry).trans

/-- The copy is compared with the counter: it is returned, or the read starts again. -/
theorem Inv.compare {request : Request} {result : Option Result}
    (h : Inv s (.reader (.compare request v result) :: rest)) :
    Inv (readerStep s (.compare request v result)).1.observe
      ((readerStep s (.compare request v result)).2.map .reader ++ rest) := by
  have hcons : (v :: rest.filterMap Work.seq1).Perm s.reading := h.reading
  have herase : (rest.filterMap Work.seq1).Perm (s.reading.erase v) := by
    have hperm := hcons.erase v
    rwa [List.erase_cons_head] at hperm
  have hquiet : s.sequence ∈ s.reading.erase v → s.writing = 0 ∧ s.resetting = false :=
    fun hmem => h.quiet (List.mem_of_mem_erase hmem)
  rw [readerStep]
  split_ifs with hseq
  · refine h.readers (n := []) herase hquiet nofun fun r' hmem => ?_
    rcases List.mem_append.mp hmem with hnew | hold
    · obtain rfl := Option.mem_toList.mp hnew
      exact h.clean _ (List.mem_cons_self ..) (congrArg some hseq.symm)
    · exact h.returned r' hold
  · refine h.readers (n := [.loadSequence request 0]) herase hquiet (fun r' hmem hv => ?_)
      h.returned
    rw [List.mem_singleton.mp hmem] at hv
    cases hv

theorem Inv.execReader {e : Circumstances} (h : Inv s (.reader r :: rest))
    (hok : Orderly s (.reader r) e) :
    Inv (readerStep s r).1.observe ((readerStep s r).2.map .reader ++ rest) := by
  -- a reader that has the counter as it is reads while nothing is being written
  have hnow : r.seq1 = some s.sequence → s.contents ∈ s.moments := by
    intro hseq
    obtain ⟨hwriting, hresetting⟩ := h.quiet (h.mem_reading (List.mem_cons_self ..) hseq)
    exact h.now hwriting hresetting
  cases r with
  | loadSequence request retries => exact h.loadSequence hok
  | scan deviceId v i =>
    rw [readerStep]
    split_ifs with hi
    · exact h.reader rfl fun _ _ => hi
    · exact h.reader rfl fun _ _ => trivial
  | checkDevice deviceId v i =>
    rw [readerStep]
    split_ifs with hid
    · exact h.reader rfl fun _ hi => ⟨hi, hid, fun f => Or.inl f.mem_all⟩
    · exact h.reader rfl fun _ _ => trivial
  | copyDevice deviceId v i todo data =>
    cases todo with
    | nil => exact h.reader rfl fun hseq hclean => hclean.copied (hnow hseq)
    | cons f todo => exact h.reader rfl fun _ hclean => hclean.copyField
  | count maxCount v =>
    refine h.reader rfl fun hseq _ =>
      ⟨s.contents, hnow hseq, rfl, .refl _, fun i hi f => Or.inl ?_⟩
    exact List.mem_flatMap.mpr ⟨i, List.mem_range.mpr hi, List.mem_map.mpr ⟨f, f.mem_all, rfl⟩⟩
  | copyAll maxCount v count todo data =>
    cases todo with
    | nil =>
      refine h.reader rfl fun _ hclean => ?_
      obtain ⟨m, hm, hcount, hgrows, hdata⟩ := hclean
      refine ⟨m, hm, hcount, fun i hi => funext fun f => ?_⟩
      rw [(hdata i hi f).resolve_left (by simp),
        hgrows.devices i (lt_of_lt_of_le hi (hcount ▸ min_le_left _ _))]
    | cons entry todo => exact h.reader rfl fun _ hclean => hclean.copyEntry
  | compare request v result => exact h.compare

/-! ### Runs -/

theorem Inv.exec {w : Work} {new : List Work} {e : Circumstances} (h : Inv s (w :: rest))
    (hok : Orderly s w e) (hexec : exec s w e = some (s', new)) : Inv s' (new ++ rest) := by
  cases w with
  | writer p t =>
    simp only [Monitor.exec] at hexec
    split_ifs at hexec with hp
    obtain ⟨rfl, rfl⟩ := Prod.mk.inj (Option.some.inj hexec)
    exact h.execWriter hp hok
  | reader r =>
    obtain ⟨rfl, rfl⟩ := Prod.mk.inj (Option.some.inj hexec)
    exact h.execReader hok

theorem Inv.startWriter {work : List Work} (h : Inv s work) (hwriter : s.writer = none) :
    Inv { s with writer := some s.processes, processes := s.processes + 1 }
      (.writer s.processes .start :: work) := by
  have hold : ∀ {q t}, .writer q t ∈ work → q ≠ s.processes := fun hmem =>
    (h.fresh _ _ hmem).ne
  have hnone : ∀ {q t}, .writer q t ∈ Work.writer s.processes .start :: work →
      some s.processes = some q → t = .start := by
    intro q t hmem hq
    rcases List.mem_cons.mp hmem with heq | hin
    · exact (Work.writer.inj heq).2
    · exact absurd (Option.some.inj hq).symm (hold hin)
  refine ⟨⟨fun q t hmem => ?_, fun q hq => ?_, fun q t hmem hq => ?_, fun _ => ?_, ?_, h.parity,
    fun q l hmem hq => absurd (hnone hmem hq) nofun, h.reading, h.quiet, fun t hmem hv => ?_,
    h.returned, nofun⟩, h.now⟩
  · rcases List.mem_cons.mp hmem with heq | hin
    · rw [(Work.writer.inj heq).1]
      exact Nat.lt_succ_self _
    · exact (h.fresh q t hin).trans (Nat.lt_succ_self _)
  · rw [← Option.some.inj hq]
    exact Nat.lt_succ_self _
  · rw [hnone hmem hq, h.idle hwriter]
    rfl
  · rw [List.countP_cons, List.countP_eq_zero.mpr]
    · split_ifs <;> omega
    · rintro (⟨q, t⟩ | r) hin
      · simpa [Work.live] using (hold hin).symm
      · simp [Work.live]
  · rw [List.countP_cons_of_neg (by simp [Work.inProgress])]
    refine h.counted.trans ((List.countP_eq_zero.mpr ?_).trans (List.countP_eq_zero.mpr ?_).symm)
    · rintro (⟨q, t⟩ | r) hin
      · cases t <;> simp [Work.inProgress, hwriter]
      · simp [Work.inProgress]
    · rintro (⟨q, t⟩ | r) hin
      · have hne := (hold hin).symm
        cases t <;> simp [Work.inProgress, hne]
      · simp [Work.inProgress]
  · have hin := (List.mem_cons.mp hmem).resolve_left nofun
    exact (h.clean t hin hv).mono (.refl _) fun _ => id

/-- The writer dies, not within a write. -/
theorem Inv.crash {work : List Work} (h : Inv s work) (hwriting : s.writing = 0) :
    Inv ({ s with writer := none, initialized := false, writing := 0, resetting := false }
      : State).observe work := by
  refine Held.observe ⟨h.fresh, nofun, fun _ _ _ => nofun, fun _ => ?_, ?_, ?_, fun _ _ _ => nofun,
    h.reading, fun _ => ⟨rfl, rfl⟩, fun t hmem hv => ?_, h.returned, fun _ => rfl⟩
  · rw [List.countP_eq_zero.mpr]
    · exact Nat.zero_le _
    · rintro (⟨q, t⟩ | r) hin <;> simp [Work.live]
  · refine (List.countP_eq_zero.mpr ?_).symm
    rintro (⟨q, t⟩ | r) hin
    · cases t <;> simp [Work.inProgress]
    · simp [Work.inProgress]
  · exact h.parity.trans (by rw [hwriting])
  · exact (h.clean t hmem hv).mono (.refl _) fun _ => id

/-- A thread is added that has loaded nothing from the counter. -/
theorem Inv.cons {work : List Work} {w : Work} (h : Inv s work) (hseq : w.seq1 = none)
    (hprogress : w.inProgress s = false)
    (hwriter : ∀ q t, w = .writer q t → s.writer = some q ∧ s.initialized = true ∧
      t.starting = false) : Inv s (w :: work) := by
  refine ⟨⟨fun q t hmem => ?_, h.current, fun q t hmem hq => ?_, fun hinit => ?_, ?_, h.parity,
    fun q l hmem hq => ?_, ?_, h.quiet, fun t hmem hv => ?_, h.returned, h.idle⟩, h.now⟩
  · rcases List.mem_cons.mp hmem with heq | hin
    · exact h.current q (hwriter q t heq.symm).1
    · exact h.fresh q t hin
  · rcases List.mem_cons.mp hmem with heq | hin
    · obtain ⟨-, hinit, ht⟩ := hwriter q t heq.symm
      rw [ht, hinit]
      rfl
    · exact h.starting q t hin hq
  · rw [List.countP_cons_of_neg]
    · exact h.alone hinit
    · cases w with
      | writer q t =>
        have htrue := (hwriter q t rfl).2.1
        rw [hinit] at htrue
        cases htrue
      | reader t => simp [Work.live]
  · rw [List.countP_cons_of_neg (by simp [hprogress])]
    exact h.counted
  · rcases List.mem_cons.mp hmem with heq | hin
    · have ht := (hwriter q _ heq.symm).2.2
      cases ht
    · exact h.reset q l hin hq
  · rw [List.filterMap_cons, hseq]
    exact h.reading
  · rcases List.mem_cons.mp hmem with heq | hin
    · rw [← heq, Work.seq1, hv] at hseq
      cases hseq
    · exact h.clean t hin hv

theorem Inv.arrive {work new : List Work} {a : Arrival} (h : Inv s work) (hok : OrderlyArrival s a)
    (harrive : arrive s a = some (s', new)) : Inv s' (new ++ work) := by
  cases a with
  | startWriter =>
    simp only [Monitor.arrive] at harrive
    split_ifs at harrive with hwriter
    obtain ⟨rfl, rfl⟩ := Prod.mk.inj (Option.some.inj harrive)
    exact h.startWriter hwriter
  | crash =>
    simp only [Monitor.arrive] at harrive
    split_ifs at harrive with hwriter
    obtain ⟨rfl, rfl⟩ := Prod.mk.inj (Option.some.inj harrive)
    exact h.crash hok
  | update deviceId update =>
    simp only [Monitor.arrive] at harrive
    split at harrive
    · rename_i p hwriter
      split_ifs at harrive with hinit
      obtain ⟨rfl, rfl⟩ := Prod.mk.inj (Option.some.inj harrive)
      refine h.cons rfl rfl fun q t heq => ?_
      obtain ⟨rfl, rfl⟩ := Work.writer.inj heq
      exact ⟨hwriter, hinit, rfl⟩
    · cases harrive
  | read request =>
    obtain ⟨rfl, rfl⟩ := Prod.mk.inj (Option.some.inj harrive)
    exact h.cons rfl rfl nofun

/-- In a run whose steps are all orderly, from a memory with an even counter, the counter is even
    whenever nothing is being written, and every copy that is returned is a snapshot. -/
theorem snapshots_consistent (contents : Contents) (sequence : UInt64) (formatted writerPid : Bool)
    (heven : sequence.toNat % 2 = 0) {c : Workers.Config State Work}
    (hrun : Relation.ReflTransGen (Workers.Step system Orderly OrderlyArrival)
      ⟨State.idle contents sequence formatted writerPid, []⟩ c) : Consistent c :=
  (Workers.invariant (fun _ _ _ hp h => h.perm hp) (fun _ _ _ _ _ _ h hok hexec => h.exec hok hexec)
    (fun _ _ _ _ _ h hok harrive => h.arrive hok harrive) hrun
    (inv_init contents heven formatted writerPid)).consistent

/-- The value of a field in what was returned for one device. -/
def Result.value (f : Field) : Result → Option UInt64
  | .device _ data => some (data f)
  | .all .. => none

/-- Device 0 is published. -/
def oneDevice : Contents := ⟨1, fun _ _ => 0⟩

/-- The item in front goes on by `n` steps. -/
def steps (n : ℕ) : List (Workers.Choice Circumstances Arrival) := .replicate n (.work 0 ⟨true⟩)

/-- A writer starts, and stores how much memory of the device is used; then the device is read. -/
def updateThenRead : List (Workers.Choice Circumstances Arrival) :=
  .arrive .startWriter :: steps 2 ++ .arrive (.update 0 (.memory 10 4 6)) :: steps 8 ++
    .arrive (.read (.device 0)) :: steps 163

theorem snapshots_consistent_update_then_read : ∃ c, Workers.play system Orderly OrderlyArrival
      ⟨State.idle oneDevice 0 true false, []⟩ updateThenRead = some c ∧ c.work = [] ∧
      c.shared.sequence = 2 ∧
      c.shared.returned.map (Result.value .memoryUsed) = [some 4] ∧ Consistent c := by
  have hplay : (Workers.play system Orderly OrderlyArrival
      ⟨State.idle oneDevice 0 true false, []⟩ updateThenRead).any (fun c => c.work.isEmpty &&
      c.shared.sequence == 2 &&
      c.shared.returned.map (Result.value .memoryUsed) == [some 4]) = true := by decide +kernel
  obtain ⟨c, hc, hend⟩ := (Option.any_eq_true ..).mp hplay
  simp only [Bool.and_eq_true, List.isEmpty_iff, beq_iff_eq] at hend
  obtain ⟨⟨hwork, hsequence⟩, hreturned⟩ := hend
  exact ⟨c, hc, hwork, hsequence, hreturned,
    snapshots_consistent oneDevice 0 true false (by decide) (Workers.play_run hc)⟩

/-- Two threads of a writer begin to write the same device, which makes the counter even again. One
    has stored two of its three fields when the device is read. -/
def overlappingUpdates : List (Workers.Choice Circumstances Arrival) :=
  .arrive .startWriter :: steps 2 ++ .arrive (.update 0 (.memory 10 4 6)) :: steps 2 ++
    .arrive (.update 0 (.memory 10 7 3)) :: steps 3 ++ .replicate 4 (.work 1 ⟨true⟩) ++
    .arrive (.read (.device 0)) :: steps 163

/-- A writer crashes within a write. -/
def crashInWrite : List (Workers.Choice Circumstances Arrival) :=
  .arrive .startWriter :: steps 2 ++ .arrive (.update 0 (.memory 10 4 6)) :: steps 4 ++
    [.arrive .crash]

/-- The reader is told of a device of which 4 are used and none is free, which was so at no moment.
    After the crash the counter stays odd. -/
theorem overlapping_updates_torn :
    (∃ c, Workers.play system (fun _ _ _ => True) (fun _ _ => True)
      ⟨State.idle oneDevice 0 true false, []⟩ overlappingUpdates = some c ∧
      ∃ r ∈ c.shared.returned, r.value .memoryUsed = some 4 ∧ r.value .memoryFree = some 0 ∧
        ∀ m ∈ c.shared.moments, ¬ r.Of m) ∧
    ∃ c, Workers.play system (fun _ _ _ => True) (fun _ _ => True)
      ⟨State.idle oneDevice 0 true false, []⟩ crashInWrite = some c ∧
      (∀ w ∈ c.work, w.inProgress c.shared = false) ∧ c.shared.sequence = 1 := by
  constructor
  · have hplay : (Workers.play system (fun _ _ _ => True) (fun _ _ => True)
        ⟨State.idle oneDevice 0 true false, []⟩ overlappingUpdates).any (fun c =>
        (c.shared.returned.any fun r => r.value .memoryUsed == some 4 &&
          r.value .memoryFree == some 0) && c.shared.moments.all fun m =>
          (List.range m.deviceCount).all fun i => m.devices i .memoryUsed != 4) = true := by
      decide +kernel
    obtain ⟨c, hc, hend⟩ := (Option.any_eq_true ..).mp hplay
    simp only [Bool.and_eq_true, List.any_eq_true, List.all_eq_true, List.mem_range, beq_iff_eq,
      bne_iff_ne] at hend
    obtain ⟨⟨r, hr, hused, hfree⟩, hmoments⟩ := hend
    refine ⟨c, hc, r, hr, hused, hfree, fun m hm hof => ?_⟩
    cases r with
    | device deviceId data =>
      obtain ⟨i, hi, rfl, -⟩ := hof
      exact hmoments m hm i hi (Option.some.inj hused)
    | all => cases hused
  · have hplay : (Workers.play system (fun _ _ _ => True) (fun _ _ => True)
        ⟨State.idle oneDevice 0 true false, []⟩ crashInWrite).any (fun c =>
        c.work.all (fun w => !w.inProgress c.shared) && c.shared.sequence == 1) = true := by
      decide +kernel
    obtain ⟨c, hc, hend⟩ := (Option.any_eq_true ..).mp hplay
    simp only [Bool.and_eq_true, List.all_eq_true, Bool.not_eq_true', beq_iff_eq] at hend
    exact ⟨c, hc, hend⟩

end DxRt.Monitor
