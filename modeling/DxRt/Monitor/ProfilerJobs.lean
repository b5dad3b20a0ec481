import DxRt.Inference.Batch
import DxRt.Monitor.Profiler

/-! lib/profiler.cpp: `Profiler`, when the metrics of a job are those of its own events.

    A job keeps its slot as long as there are not more job ids than samples; ids that the engine
    uses again find what was recorded under them before. -/

namespace DxRt.Profiler
namespace DeviceProfilerBuffer
variable {samples m : ℕ} {table : Table} {jobId id : ℤ} {type : EventType}
  {f : TimePoint → TimePoint} {tp : TimePoint}

/-! ### One table -/

theorem Table.entry_update : (table.update jobId type f).entry id =
    if id = jobId ∧ jobId ∈ table.map JobRecord.jobId then
      Function.update (table.entry id) type (f (table.entry id type))
    else table.entry id := by
  have hsame : ((fun r : JobRecord => r.jobId == id) ∘ fun r =>
      if r.jobId = jobId then r.update type f else r) = fun r => r.jobId == id := by
    funext r
    rw [Function.comp_apply]
    split_ifs <;> rfl
  rw [Table.entry, Table.update, List.find?_map, hsame]
  cases hfind : table.find? fun r => r.jobId == id with
  | none =>
    have hnot : id ∉ table.map JobRecord.jobId := by
      intro hmem
      obtain ⟨r, hr, heq⟩ := List.mem_map.mp hmem
      exact absurd (beq_iff_eq.mpr heq) (List.find?_eq_none.mp hfind r hr)
    have hentry : table.entry id = fun _ => TimePoint.zero := by rw [Table.entry, hfind]
    rw [hentry, Option.map_none, if_neg]
    rintro ⟨rfl, hmem⟩
    exact hnot hmem
  | some r =>
    have hid : r.jobId = id := by simpa using List.find?_some hfind
    have hentry : table.entry id = r.record := by rw [Table.entry, hfind]
    have hmem : r.jobId ∈ table.map JobRecord.jobId :=
      List.mem_map_of_mem (List.mem_of_find?_eq_some hfind)
    rw [hentry, Option.map_some, ← hid]
    dsimp only
    by_cases hjob : r.jobId = jobId
    · rw [if_pos hjob, if_pos ⟨hjob, hjob ▸ hmem⟩]
      rfl
    · rw [if_neg hjob, if_neg fun h => hjob h.1]

/-- The jobs of a table have different ids, all below `m`. -/
structure Table.Below (m : ℕ) (table : Table) : Prop where
  nodup : (table.map JobRecord.jobId).Nodup
  below : ∀ id ∈ table.map JobRecord.jobId, 0 ≤ id ∧ id < m

theorem Table.below_nil : Table.Below m [] := ⟨List.nodup_nil, List.forall_mem_nil _⟩

/-- There is room for a job that is not in the table. -/
theorem Table.Below.length_lt (h : table.Below m) (hid : 0 ≤ jobId ∧ jobId < m)
    (hnot : jobId ∉ table.map JobRecord.jobId) : table.length < m := by
  have hsub : (jobId :: table.map JobRecord.jobId).toFinset ⊆ Finset.Ico (0 : ℤ) m := by
    intro id hmem
    rw [Finset.mem_Ico]
    rcases List.mem_cons.mp (List.mem_toFinset.mp hmem) with rfl | hmem
    · exact hid
    · exact h.below id hmem
  have hcard := Finset.card_le_card hsub
  rw [List.toFinset_card_of_nodup (List.nodup_cons.mpr ⟨hnot, h.nodup⟩), Int.card_Ico] at hcard
  simp only [List.length_cons, List.length_map] at hcard
  omega

theorem Table.Below.update (h : table.Below m) : (table.update jobId type f).Below m where
  nodup := by rw [Table.map_jobId_update]; exact h.nodup
  below := by rw [Table.map_jobId_update]; exact h.below

theorem Table.advance_eq (hroom : table.length < samples) :
    table.advance samples jobId = ⟨jobId, fun _ => TimePoint.zero⟩ :: table :=
  List.take_of_length_le hroom

theorem Table.Below.record (h : table.Below m) (hid : 0 ≤ jobId ∧ jobId < m) (hm : m ≤ samples) :
    (table.record samples type jobId tp).Below m := by
  rw [Table.record]
  split_ifs with hmem
  · exact h.update
  · rw [Table.advance_eq ((h.length_lt hid hmem).trans_le hm)]
    refine Table.Below.update ⟨List.nodup_cons.mpr ⟨hmem, h.nodup⟩, fun id hid' => ?_⟩
    rcases List.mem_cons.mp hid' with rfl | hid'
    · exact hid
    · exact h.below id hid'

/-- With room for all jobs, an event changes the entry of its own job. -/
theorem Table.Below.entry_record (h : table.Below m) (hid : 0 ≤ jobId ∧ jobId < m)
    (hm : m ≤ samples) (id : ℤ) :
    (table.record samples type jobId tp).entry id =
      if id = jobId then Function.update (table.entry id) type tp else table.entry id := by
  rw [Table.record]
  split_ifs with hmem hjob hjob
  · rw [Table.entry_update, if_pos ⟨hjob, hmem⟩]
  · rw [Table.entry_update, if_neg fun h => hjob h.1]
  · have hadvance : (table.advance samples jobId).entry id = table.entry id := by
      rw [Table.advance_eq ((h.length_lt hid hmem).trans_le hm), hjob,
        Table.entry_of_not_mem hmem, Table.entry, List.find?_cons_of_pos (by simp)]
    have hnew : jobId ∈ (table.advance samples jobId).map JobRecord.jobId := by
      rw [Table.advance_eq ((h.length_lt hid hmem).trans_le hm)]
      exact List.mem_cons_self
    rw [Table.entry_update, if_pos ⟨hjob, hnew⟩, hadvance]
  · rw [Table.entry_update, if_neg fun h => hjob h.1,
      Table.advance_eq ((h.length_lt hid hmem).trans_le hm), Table.entry,
      List.find?_cons_of_neg (by simpa using Ne.symm hjob), Table.entry]

theorem Table.entry_stop (now : ℕ) (id : ℤ) :
    (table.update jobId type (TimePoint.stop now)).entry id =
      if id = jobId then Function.update (table.entry id) type (.stop now (table.entry id type))
      else table.entry id := by
  rw [Table.entry_update]
  by_cases hjob : id = jobId
  · subst hjob
    rw [if_pos rfl]
    split_ifs with hmem
    · rfl
    · -- there is no start
      have hnot : id ∉ table.map JobRecord.jobId := fun h => hmem ⟨rfl, h⟩
      rw [Table.entry_of_not_mem hnot]
      exact (Function.update_eq_self type fun _ => TimePoint.zero).symm
  · rw [if_neg hjob, if_neg fun h => hjob h.1]

end DeviceProfilerBuffer

open DeviceProfilerBuffer

/-! ### The calls of a job -/

/-- A call that matters for a job: one of its own events, or one that is not about a job. -/
def Call.concerns (jobId : ℤ) : Call → Bool
  | .addTimePoint _ _ _ id _ | .start _ _ _ id _ | .stop _ _ _ id _ => id = jobId
  | .flush | .setEnabled _ => true
  | .getJobMetrics _ => false

/-- The events are of jobs below `m`. -/
def Call.JobBelow (m : ℕ) : Call → Prop
  | .addTimePoint _ _ _ id _ | .start _ _ _ id _ | .stop _ _ _ id _ => id < m
  | .flush | .setEnabled _ | .getJobMetrics _ => True

variable {samples m : ℕ} {t u : Tables} {type : EventType} {taskName : String}
  {deviceId jobId id : ℤ} {g : Table → Table} {F : (EventType → TimePoint) → EventType → TimePoint}

def Tables.Below (m : ℕ) (t : Tables) : Prop :=
  ∀ taskName deviceId, (t.table taskName deviceId).Below m

/-- The entries of one job in two tables are the same. -/
def Tables.Agree (id : ℤ) (t u : Tables) : Prop :=
  t.enabled = u.enabled ∧ ∀ taskName deviceId,
    (t.table taskName deviceId).entry id = (u.table taskName deviceId).entry id

theorem accepts_spec {enabled : Bool} (h : accepts samples enabled type jobId = true) :
    1 ≤ samples ∧ 0 ≤ jobId := by
  simp only [accepts, Bool.and_eq_true, decide_eq_true_eq] at h
  omega

theorem Tables.table_onTable (taskName' : String) (deviceId' : ℤ) :
    (t.onTable taskName deviceId g).table taskName' deviceId' =
      if taskName' = taskName ∧ deviceId' = deviceId then g (t.table taskName' deviceId')
      else t.table taskName' deviceId' := by
  simp only [Tables.onTable]
  rcases eq_or_ne taskName' taskName with rfl | htask
  · rw [Function.update_self]
    rcases eq_or_ne deviceId' deviceId with rfl | hdevice
    · rw [Function.update_self, if_pos ⟨rfl, rfl⟩]
    · rw [Function.update_of_ne hdevice, if_neg fun h => hdevice h.2]
  · rw [Function.update_of_ne htask, if_neg fun h => htask h.1]

theorem Tables.Below.event (h : t.Below m)
    (hg : 0 ≤ jobId → 1 ≤ samples → ∀ table : Table, table.Below m → (g table).Below m) :
    (t.event samples type taskName deviceId jobId g).Below m := by
  rw [Tables.event]
  split_ifs with haccepts
  · intro taskName' deviceId'
    obtain ⟨hsamples, hjob⟩ := accepts_spec haccepts
    rw [Tables.table_onTable]
    split_ifs
    · exact hg hjob hsamples _ (h taskName' deviceId')
    · exact h taskName' deviceId'
  · exact h

/-- An event of another job leaves the entries as they are. -/
theorem Tables.Agree.event_left (h : Tables.Agree id t u) (ht : t.Below m)
    (hg : 0 ≤ jobId → 1 ≤ samples → ∀ table : Table, table.Below m →
      (g table).entry id = if id = jobId then F (table.entry id) else table.entry id)
    (hid : id ≠ jobId) : Tables.Agree id (t.event samples type taskName deviceId jobId g) u := by
  rw [Tables.event]
  split_ifs with haccepts
  · refine ⟨h.1, fun taskName' deviceId' => ?_⟩
    obtain ⟨hsamples, hjob⟩ := accepts_spec haccepts
    rw [← h.2, Tables.table_onTable]
    split_ifs
    · rw [hg hjob hsamples _ (ht taskName' deviceId'), if_neg hid]
    · rfl
  · exact h

/-- An event of the job changes both entries in the same way. -/
theorem Tables.Agree.event (h : Tables.Agree id t u) (ht : t.Below m) (hu : u.Below m)
    (hg : 0 ≤ jobId → 1 ≤ samples → ∀ table : Table, table.Below m →
      (g table).entry id = if id = jobId then F (table.entry id) else table.entry id) :
    Tables.Agree id (t.event samples type taskName deviceId jobId g)
      (u.event samples type taskName deviceId jobId g) := by
  rw [Tables.event, Tables.event, h.1]
  split_ifs with haccepts
  · refine ⟨h.1, fun taskName' deviceId' => ?_⟩
    obtain ⟨hsamples, hjob⟩ := accepts_spec haccepts
    rw [Tables.table_onTable, Tables.table_onTable]
    split_ifs
    · rw [hg hjob hsamples _ (ht taskName' deviceId'), hg hjob hsamples _ (hu taskName' deviceId'),
        h.2]
    · exact h.2 taskName' deviceId'
  · exact h

/-! ### Runs -/

variable {c : Call} {calls : List Call}

theorem Tables.Below.call (h : t.Below m) (hm : 1 ≤ samples → m ≤ samples) (hc : c.JobBelow m) :
    (t.call samples c).1.Below m := by
  cases c with
  | addTimePoint type taskName deviceId jobId tp =>
    cases tp with
    | none => exact h
    | some tp =>
      exact h.event fun hjob hsamples _ htable => htable.record ⟨hjob, hc⟩ (hm hsamples)
  | start type taskName deviceId jobId now =>
    exact h.event fun hjob hsamples _ htable => htable.record ⟨hjob, hc⟩ (hm hsamples)
  | stop type taskName deviceId jobId now => exact h.event fun _ _ _ htable => htable.update
  | flush =>
    simp only [Tables.call]
    split_ifs
    · exact fun _ _ => Table.below_nil
    · exact h
  | setEnabled enabled => exact h
  | getJobMetrics jobId => exact h

theorem Tables.Agree.call (h : Tables.Agree id t u) (ht : t.Below m) (hu : u.Below m)
    (hm : 1 ≤ samples → m ≤ samples) (hc : c.JobBelow m) :
    Tables.Agree id (t.call samples c).1 (u.call samples c).1 := by
  cases c with
  | addTimePoint type taskName deviceId jobId tp =>
    cases tp with
    | none => exact h
    | some tp =>
      exact h.event (F := fun r => Function.update r type tp) ht hu
        fun hjob hsamples _ htable => htable.entry_record ⟨hjob, hc⟩ (hm hsamples) id
  | start type taskName deviceId jobId now =>
    exact h.event (F := fun r => Function.update r type ⟨now, 0⟩) ht hu
      fun hjob hsamples _ htable => htable.entry_record ⟨hjob, hc⟩ (hm hsamples) id
  | stop type taskName deviceId jobId now =>
    exact h.event (F := fun r => Function.update r type (.stop now (r type))) ht hu
      fun _ _ _ _ => Table.entry_stop now id
  | flush =>
    simp only [Tables.call, h.1]
    split_ifs
    · exact ⟨rfl, fun _ _ => rfl⟩
    · exact h
  | setEnabled enabled => exact ⟨rfl, h.2⟩
  | getJobMetrics jobId => exact h

theorem Tables.Agree.call_left (h : Tables.Agree id t u) (ht : t.Below m)
    (hm : 1 ≤ samples → m ≤ samples) (hc : c.JobBelow m) (hid : c.concerns id = false) :
    Tables.Agree id (t.call samples c).1 u := by
  cases c with
  | addTimePoint type taskName deviceId jobId tp =>
    have hother : id ≠ jobId := Ne.symm (of_decide_eq_false hid)
    cases tp with
    | none => exact h
    | some tp =>
      exact h.event_left (F := fun r => Function.update r type tp) ht
        (fun hjob hsamples _ htable => htable.entry_record ⟨hjob, hc⟩ (hm hsamples) id) hother
  | start type taskName deviceId jobId now =>
    have hother : id ≠ jobId := Ne.symm (of_decide_eq_false hid)
    exact h.event_left (F := fun r => Function.update r type ⟨now, 0⟩) ht
      (fun hjob hsamples _ htable => htable.entry_record ⟨hjob, hc⟩ (hm hsamples) id) hother
  | stop type taskName deviceId jobId now =>
    have hother : id ≠ jobId := Ne.symm (of_decide_eq_false hid)
    exact h.event_left (F := fun r => Function.update r type (.stop now (r type))) ht
      (fun _ _ _ _ => Table.entry_stop now id) hother
  | flush => exact absurd hid (by simp [Call.concerns])
  | setEnabled enabled => exact absurd hid (by simp [Call.concerns])
  | getJobMetrics jobId => exact h

/-- The calls of one job alone leave the same entries as all calls. -/
theorem Tables.Agree.final (h : Tables.Agree id t u) (ht : t.Below m) (hu : u.Below m)
    (hm : 1 ≤ samples → m ≤ samples) (hcalls : ∀ c ∈ calls, c.JobBelow m) :
    Tables.Agree id (Machine.final (Tables.call samples) t calls)
      (Machine.final (Tables.call samples) u (calls.filter (Call.concerns id))) := by
  induction calls generalizing t u with
  | nil => exact h
  | cons c calls ih =>
    have hc := hcalls c List.mem_cons_self
    have hrest := fun c' hc' => hcalls c' (List.mem_cons_of_mem c hc')
    cases hid : c.concerns id with
    | true =>
      rw [List.filter_cons_of_pos hid]
      exact ih (h.call ht hu hm hc) (ht.call hm hc) (hu.call hm hc) hrest
    | false =>
      rw [List.filter_cons_of_neg (by simp [hid])]
      exact ih (h.call_left ht hm hc hid) (ht.call hm hc) hu hrest

theorem Tables.Agree.getJobMetrics (h : Tables.Agree id t u) :
    t.getJobMetrics id = u.getJobMetrics id := by
  funext taskName
  rw [Tables.getJobMetrics, Tables.getJobMetrics]
  congr 1
  funext deviceId
  exact h.2 taskName deviceId

/-- The profiler after some calls. -/
def after (samples : ℕ) (calls : List Call) : Profiler :=
  Machine.final (Profiler.call samples) (init false) calls

theorem getJobMetrics_after (samples : ℕ) (calls : List Call) (jobId : ℤ) :
    (after samples calls).getJobMetrics samples jobId =
      (Machine.final (Tables.call samples) (Tables.init false) calls).getJobMetrics jobId :=
  ((refines samples).final (represents_init samples false) calls).getJobMetrics jobId

theorem own_calls (hm : 1 ≤ samples → m ≤ samples) (hcalls : ∀ c ∈ calls, c.JobBelow m)
    (jobId : ℤ) :
    (after samples calls).getJobMetrics samples jobId =
      (after samples (calls.filter (Call.concerns jobId))).getJobMetrics samples jobId := by
  have hagree : Tables.Agree jobId (Tables.init false) (Tables.init false) := ⟨rfl, fun _ _ => rfl⟩
  have hbelow : Tables.Below m (Tables.init false) := fun _ _ => Table.below_nil
  rw [getJobMetrics_after, getJobMetrics_after]
  exact (hagree.final hbelow hbelow hm hcalls).getJobMetrics

/-- The profiler has a sample for each job of an engine's pool, with and without `USE_PROFILER`. -/
theorem own_calls_of_pool (useProfiler : Bool)
    (hcalls : ∀ c ∈ calls, c.JobBelow Inference.INFERENCE_JOB_MAX_COUNT) (jobId : ℤ) :
    let samples := PROFILER_DEFAULT_SAMPLES useProfiler
    (after samples calls).getJobMetrics samples jobId =
      (after samples (calls.filter (Call.concerns jobId))).getJobMetrics samples jobId :=
  own_calls (by cases useProfiler <;> decide) hcalls jobId

/-! ### More jobs than samples -/

/-- An event of each of the first `k` jobs. -/
def fill (k : ℕ) : List Call :=
  .setEnabled true :: (List.range k).map fun i : ℕ => .addTimePoint .h2d "npu_0" 0 i (some ⟨1, 2⟩)

theorem fill_succ (k : ℕ) :
    fill (k + 1) = fill k ++ [.addTimePoint .h2d "npu_0" 0 k (some ⟨1, 2⟩)] := by
  rw [fill, fill, List.range_succ, List.map_append, List.cons_append]
  rfl

theorem filter_fill (k : ℕ) : (fill (k + 1)).filter (Call.concerns 0) = fill 1 := by
  induction k with
  | zero => rfl
  | succ k ih =>
    rw [fill_succ, List.filter_append, ih, List.filter_cons_of_neg, List.filter_nil,
      List.append_nil]
    simp [Call.concerns]
    omega

/-- The table has the latest jobs. -/
theorem table_fill (hsamples : 1 ≤ samples) (k : ℕ) :
    let t := Machine.final (Tables.call samples) (Tables.init false) (fill k)
    t.enabled = true ∧ (t.table "npu_0" 0).map JobRecord.jobId =
      ((List.range k).reverse.map Int.ofNat).take samples := by
  induction k with
  | zero => exact ⟨rfl, List.take_nil.symm⟩
  | succ k ih =>
    intro t
    have hfinal : t = (Tables.call samples (Machine.final (Tables.call samples) (Tables.init false)
        (fill k)) (.addTimePoint .h2d "npu_0" 0 k (some ⟨1, 2⟩))).1 := by
      rw [← Machine.final_append_one, ← fill_succ]
    obtain ⟨henabled, hids⟩ := ih
    generalize Machine.final (Tables.call samples) (Tables.init false) (fill k) = t' at *
    have haccepts : accepts samples t'.enabled .h2d k = true := by
      rw [henabled]
      simp [accepts]
      omega
    rw [hfinal, Tables.call, Tables.event, if_pos haccepts]
    refine ⟨henabled, ?_⟩
    have hnew : (k : ℤ) ∉ (t'.table "npu_0" 0).map JobRecord.jobId := by
      rw [hids]
      intro hmem
      obtain ⟨i, hi, heq⟩ := List.mem_map.mp (List.mem_of_mem_take hmem)
      have hlt := List.mem_range.mp (List.mem_reverse.mp hi)
      exact absurd (Int.ofNat.inj heq) hlt.ne
    rw [Tables.table_onTable, if_pos ⟨rfl, rfl⟩, Table.record, if_neg hnew, Table.map_jobId_update,
      Table.advance, List.map_take, List.map_cons, hids, List.range_succ, List.reverse_append,
      List.reverse_singleton, List.singleton_append, List.map_cons]
    obtain ⟨n, rfl⟩ := Nat.exists_eq_succ_of_ne_zero (Nat.one_le_iff_ne_zero.mp hsamples)
    rw [List.take_succ_cons, List.take_succ_cons, List.take_take, Nat.min_eq_left n.le_succ]
    rfl

theorem devices_after (samples : ℕ) (calls : List Call) (jobId : ℤ) :
    ((after samples calls).getJobMetrics samples jobId "npu_0").devices 0 =
      npuDevice (((Machine.final (Tables.call samples) (Tables.init false) calls).table
        "npu_0" 0).entry jobId) := by
  have hdevice : (0 : ℤ) ≠ CPU_DEVICE_ID := by decide
  simp only [getJobMetrics_after, Tables.getJobMetrics, TaskMetrics.ofRecords, if_neg hdevice]

theorem fill_one_measured (hsamples : 1 ≤ samples) :
    ((after samples (fill 1)).getJobMetrics samples 0 "npu_0").devices 0 ≠ none := by
  have haccepts : accepts samples (Tables.init true).enabled .h2d 0 = true := by
    simp [accepts, Tables.init]
    omega
  have htable : (Machine.final (Tables.call samples) (Tables.init false) (fill 1)).table "npu_0" 0 =
      Table.record samples [] .h2d 0 ⟨1, 2⟩ := by
    have hevent : Machine.final (Tables.call samples) (Tables.init false) (fill 1) =
        Tables.event samples (Tables.init true) .h2d "npu_0" 0 0 fun table =>
          table.record samples .h2d 0 ⟨1, 2⟩ := rfl
    rw [hevent, Tables.event, if_pos haccepts, Tables.table_onTable, if_pos ⟨rfl, rfl⟩]
    rfl
  rw [devices_after, htable,
    Table.below_nil.entry_record ⟨le_refl _, Nat.cast_pos.mpr Nat.one_pos⟩ hsamples, if_pos rfl]
  decide

/-- The first job has lost its slot to the job after the last sample. -/
theorem fill_evicted (hsamples : 1 ≤ samples) :
    ((after samples (fill (samples + 1))).getJobMetrics samples 0 "npu_0").devices 0 = none := by
  have hids := (table_fill hsamples (samples + 1)).2
  rw [devices_after, Table.entry_of_not_mem, npuDevice_zero]
  rw [hids, List.range_succ_eq_map, List.reverse_cons, List.map_append,
    List.take_left' (by simp)]
  intro hmem
  obtain ⟨i, hi, heq⟩ := List.mem_map.mp hmem
  obtain ⟨k, _, rfl⟩ := List.mem_map.mp (List.mem_reverse.mp hi)
  exact absurd (Int.ofNat.inj heq) k.succ_ne_zero

/-- The metrics of each job are those of its own calls, in every sequence of calls that are about
    jobs below `m`, if and only if there are at least as many samples, or none at all. -/
theorem isolated_iff (samples m : ℕ) :
    (∀ calls : List Call, (∀ c ∈ calls, c.JobBelow m) → ∀ jobId,
      (after samples calls).getJobMetrics samples jobId =
        (after samples (calls.filter (Call.concerns jobId))).getJobMetrics samples jobId) ↔
    m ≤ samples ∨ samples = 0 := by
  constructor
  · intro h
    by_contra hmore
    obtain ⟨hm, hsamples⟩ := not_or.mp hmore
    have hpos : 1 ≤ samples := Nat.one_le_iff_ne_zero.mpr hsamples
    have hbelow : ∀ c ∈ fill (samples + 1), c.JobBelow m := by
      intro c hc
      rcases List.mem_cons.mp hc with rfl | hc
      · exact trivial
      · obtain ⟨i, hi, rfl⟩ := List.mem_map.mp hc
        have hlt := List.mem_range.mp hi
        exact Int.ofNat_lt.mpr (by omega)
    have hsame := congrFun (h _ hbelow 0) "npu_0"
    rw [filter_fill] at hsame
    exact fill_one_measured hpos (hsame ▸ fill_evicted hpos)
  · intro hm calls hcalls jobId
    exact own_calls (fun _ => by omega) hcalls jobId

end DxRt.Profiler
