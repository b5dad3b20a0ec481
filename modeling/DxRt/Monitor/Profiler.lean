import DxRt.Lib.Machine
import DxRt.Lib.Ring

/-! lib/profiler.cpp, include/dxrt/profiler.h: `Profiler`, what is measured of the jobs.

    For each task and device a buffer has a slot for each of the latest jobs, and for each type of
    event an array over the slots. Times are in nanoseconds of the clock, and zero is no time. The
    statistics are in floating point and left out; `GetJobMetrics` answers for every task name, and
    the tasks without any time are those that it does not list. -/

namespace DxRt.Profiler

/-- The samples of each task and device, with and without `USE_PROFILER`. -/
def PROFILER_DEFAULT_SAMPLES (useProfiler : Bool) : ℕ := if useProfiler then 2000 else 0

inductive EventType where
  | npuInputFormat
  | h2d
  | inferenceCoreAll
  | inferenceCore0
  | inferenceCore1
  | inferenceCore2
  | d2h
  | npuOutputFormat
  | npuTaskTotal
  | cpuTaskTotal
  | bufferPoolWait
  | frameworkOverhead
  | cpuDispatchWait
  | serviceProcessWait
  | unknown
  deriving DecidableEq

structure TimePoint where
  start : ℕ
  finish : ℕ
  deriving DecidableEq

def TimePoint.zero : TimePoint := ⟨0, 0⟩

/-- `TimePoint::end` is set to `now`, if there was a start. -/
def TimePoint.stop (now : ℕ) (tp : TimePoint) : TimePoint :=
  if tp.start = 0 then tp else { tp with finish := now }

def CPU_DEVICE_ID : ℤ := -1

/-- `events` has an array for the types that have occurred. -/
structure DeviceProfilerBuffer where
  events : EventType → Option (ℕ → TimePoint)
  jobIds : ℕ → ℤ
  currentIdx : ℕ
  jobCount : ℕ

namespace DeviceProfilerBuffer
variable {buf : DeviceProfilerBuffer} {samples : ℕ} {jobId : ℤ} {type : EventType}

def make : DeviceProfilerBuffer := ⟨fun _ => none, fun _ => -1, 0, 0⟩

def findJobIndex (samples : ℕ) (buf : DeviceProfilerBuffer) (jobId : ℤ) : Option ℕ :=
  (List.range samples).find? fun i => buf.jobIds i == jobId

/-- The array of a type, which the first access creates. -/
def array (buf : DeviceProfilerBuffer) (type : EventType) : ℕ → TimePoint :=
  (buf.events type).getD fun _ => TimePoint.zero

/-- A slot for a new job, cleared of what it held. -/
def advance (samples : ℕ) (buf : DeviceProfilerBuffer) (jobId : ℤ) : DeviceProfilerBuffer :=
  let slot := (buf.currentIdx + 1) % samples
  { events := fun type => (buf.events type).map fun a => Function.update a slot TimePoint.zero
    jobIds := Function.update buf.jobIds slot jobId
    currentIdx := slot
    jobCount := buf.jobCount + 1 }

/-- `buf.events[type][slot]` is replaced. -/
def update (buf : DeviceProfilerBuffer) (type : EventType) (slot : ℕ) (f : TimePoint → TimePoint) :
    DeviceProfilerBuffer :=
  { buf with
    events := Function.update buf.events type
      (some (Function.update (buf.array type) slot (f (buf.array type slot)))) }

/-- `AddTimePoint` and `Start`. -/
def record (samples : ℕ) (buf : DeviceProfilerBuffer) (type : EventType) (jobId : ℤ)
    (tp : TimePoint) : DeviceProfilerBuffer :=
  match buf.findJobIndex samples jobId with
  | some slot => buf.update type slot fun _ => tp
  | none =>
    let buf := buf.advance samples jobId
    buf.update type buf.currentIdx fun _ => tp

/-- `End`; an access that finds no start leaves an array of zeros. -/
def stop (samples : ℕ) (buf : DeviceProfilerBuffer) (type : EventType) (jobId : ℤ) (now : ℕ) :
    DeviceProfilerBuffer :=
  match buf.findJobIndex samples jobId with
  | some slot => buf.update type slot (TimePoint.stop now)
  | none => buf

/-- What is recorded in a slot. -/
def slotRecord (buf : DeviceProfilerBuffer) (slot : ℕ) : EventType → TimePoint :=
  fun type => buf.array type slot

/-- What is recorded of a job, zeros if it has no slot. -/
def entry (samples : ℕ) (buf : DeviceProfilerBuffer) (jobId : ℤ) : EventType → TimePoint :=
  match buf.findJobIndex samples jobId with
  | some slot => buf.slotRecord slot
  | none => fun _ => TimePoint.zero

/-! ### The table -/

/-- What is recorded of one job. -/
structure JobRecord where
  jobId : ℤ
  record : EventType → TimePoint

def JobRecord.update (r : JobRecord) (type : EventType) (f : TimePoint → TimePoint) : JobRecord :=
  { r with record := Function.update r.record type (f (r.record type)) }

/-- What a buffer is for: a table of the latest jobs, the newest first. -/
abbrev Table := List JobRecord

/-- A table with a new job, without its oldest one if it was full. -/
def Table.advance (samples : ℕ) (table : Table) (jobId : ℤ) : Table :=
  List.take samples (⟨jobId, fun _ => TimePoint.zero⟩ :: table)

def Table.update (table : Table) (jobId : ℤ) (type : EventType) (f : TimePoint → TimePoint) :
    Table :=
  table.map fun r => if r.jobId = jobId then r.update type f else r

def Table.record (samples : ℕ) (table : Table) (type : EventType) (jobId : ℤ) (tp : TimePoint) :
    Table :=
  if jobId ∈ table.map JobRecord.jobId then table.update jobId type fun _ => tp
  else (table.advance samples jobId).update jobId type fun _ => tp

def Table.entry (table : Table) (jobId : ℤ) : EventType → TimePoint :=
  match table.find? fun r => r.jobId == jobId with
  | some r => r.record
  | none => fun _ => TimePoint.zero

variable {table : Table} {f : TimePoint → TimePoint} {r : JobRecord} {j : ℕ}

theorem Table.map_jobId_update :
    (table.update jobId type f).map JobRecord.jobId = table.map JobRecord.jobId := by
  rw [Table.update, List.map_map]
  refine List.map_congr_left fun r _ => ?_
  rw [Function.comp_apply]
  split_ifs <;> rfl

@[simp] theorem Table.length_update : (table.update jobId type f).length = table.length :=
  List.length_map _

theorem Table.update_of_not_mem (h : jobId ∉ table.map JobRecord.jobId) :
    table.update jobId type f = table := by
  refine (List.map_congr_left fun r hr => if_neg fun heq => h ?_).trans (List.map_id table)
  rw [← heq]
  exact List.mem_map_of_mem hr

/-- A job is found in a table by its id. -/
theorem Table.entry_of_getElem (hnodup : (table.map JobRecord.jobId).Nodup)
    (hr : table[j]? = some r) : table.entry r.jobId = r.record := by
  induction table generalizing j with
  | nil => simp at hr
  | cons r' table ih =>
    rw [List.map_cons, List.nodup_cons] at hnodup
    cases j with
    | zero =>
      obtain rfl : r' = r := by simpa using hr
      simp [Table.entry]
    | succ j =>
      rw [List.getElem?_cons_succ] at hr
      have hne : r'.jobId ≠ r.jobId := by
        intro heq
        rw [heq] at hnodup
        exact hnodup.1 (List.mem_map_of_mem (List.mem_of_getElem? hr))
      rw [← ih hnodup.2 hr, Table.entry, Table.entry, List.find?_cons_of_neg (by simpa using hne)]

theorem Table.entry_of_not_mem (h : jobId ∉ table.map JobRecord.jobId) :
    table.entry jobId = fun _ => TimePoint.zero := by
  have hnone : (table.find? fun r => r.jobId == jobId) = none := by
    refine List.find?_eq_none.mpr fun r hr heq => h ?_
    rw [← beq_iff_eq.mp heq]
    exact List.mem_map_of_mem hr
  rw [Table.entry, hnone]

theorem Table.map_record_update (hnodup : (table.map JobRecord.jobId).Nodup)
    (hr : table[j]? = some r) :
    ((table.update r.jobId type f).map fun r => r.record type) =
      (table.map fun r => r.record type).set j (f (r.record type)) := by
  obtain ⟨hj, hrj⟩ := List.getElem?_eq_some_iff.mp hr
  refine List.ext_getElem (by simp) fun k hk _ => ?_
  have hkt : k < table.length := by simpa using hk
  rw [List.getElem_set, List.getElem_map, List.getElem_map]
  simp only [Table.update, List.getElem_map]
  split_ifs with hid hjk hjk
  · subst hjk
    rw [hrj]
    exact Function.update_self _ _ _
  · -- two jobs of the table have different ids
    refine absurd ?_ (Ne.symm hjk)
    refine (List.getElem?_inj (by simpa using hkt) hnodup).mp ?_
    rw [List.getElem?_map, List.getElem?_map, hr, List.getElem?_eq_getElem hkt, Option.map_some,
      Option.map_some, hid]
  · subst hjk
    exact absurd (congrArg JobRecord.jobId hrj) hid
  · rfl

theorem Table.map_record_update_of_ne {type' : EventType} (htype : type' ≠ type) :
    ((table.update jobId type f).map fun r => r.record type') =
      table.map fun r => r.record type' := by
  rw [Table.update, List.map_map]
  refine List.map_congr_left fun r _ => ?_
  rw [Function.comp_apply]
  split_ifs
  · exact Function.update_of_ne htype _ _
  · rfl

/-- The slot that is written next. -/
def next (samples : ℕ) (buf : DeviceProfilerBuffer) : ℕ := (buf.currentIdx + 1) % samples

/-- The buffer represents the table: one slot for each job, with what is recorded of the job. -/
structure Represents (samples : ℕ) (buf : DeviceProfilerBuffer) (table : Table) : Prop where
  current : buf.currentIdx < samples
  length : table.length ≤ samples
  nodup : (table.map JobRecord.jobId).Nodup
  nonneg : ∀ r ∈ table, 0 ≤ r.jobId
  jobIds : Ring.Holds samples (buf.next samples) buf.jobIds (table.map JobRecord.jobId)
  records : ∀ type, Ring.Holds samples (buf.next samples) (buf.array type)
    (table.map fun r => r.record type)
  free : ∀ j < samples, table.length ≤ j →
    buf.jobIds (Ring.slot samples (buf.next samples) j) = -1 ∧
    ∀ type, buf.array type (Ring.slot samples (buf.next samples) j) = TimePoint.zero

theorem represents_make (hsamples : 1 ≤ samples) : Represents samples make [] where
  current := hsamples
  length := Nat.zero_le _
  nodup := List.nodup_nil
  nonneg := List.forall_mem_nil _
  jobIds := .nil
  records _ := .nil
  free _ _ _ := ⟨rfl, fun _ => rfl⟩

theorem Represents.next_lt (h : Represents samples buf table) : buf.next samples < samples :=
  Ring.succ_mod_lt h.current

theorem Represents.lt (h : Represents samples buf table) (hr : table[j]? = some r) : j < samples :=
  (List.getElem?_eq_some_iff.mp hr).1.trans_le h.length

theorem findJobIndex_some {i : ℕ} (h : buf.findJobIndex samples jobId = some i) :
    i < samples ∧ buf.jobIds i = jobId := by
  rw [findJobIndex] at h
  exact ⟨List.mem_range.mp (List.mem_of_find?_eq_some h), by simpa using List.find?_some h⟩

/-- A job of the table is found in its slot. -/
theorem Represents.find (h : Represents samples buf table) (hr : table[j]? = some r) :
    buf.findJobIndex samples r.jobId = some (Ring.slot samples (buf.next samples) j) := by
  have hid : buf.jobIds (Ring.slot samples (buf.next samples) j) = r.jobId :=
    h.jobIds j _ (h.lt hr) (by rw [List.getElem?_map, hr]; rfl)
  cases hfind : buf.findJobIndex samples r.jobId with
  | none =>
    have hslot := List.mem_range.mpr (Ring.slot_lt h.next_lt j)
    exact absurd (beq_iff_eq.mpr hid) (List.find?_eq_none.mp hfind _ hslot)
  | some i =>
    obtain ⟨hi, hsame⟩ := findJobIndex_some hfind
    obtain ⟨hj, rfl⟩ := List.getElem?_eq_some_iff.mp hr
    obtain ⟨k, hk, rfl⟩ := Ring.exists_slot h.next_lt hi
    rcases Nat.lt_or_ge k table.length with hkt | hkt
    · have hidk := h.jobIds k table[k].jobId hk (by simp [hkt])
      have heq : k = j := by
        refine (List.getElem?_inj (by simpa using hkt) h.nodup).mp ?_
        rw [List.getElem?_map, List.getElem?_map, List.getElem?_eq_getElem hkt,
          List.getElem?_eq_getElem hj, Option.map_some, Option.map_some, ← hidk, hsame]
      rw [heq]
    · have hneg := h.nonneg table[j] (List.getElem_mem hj)
      rw [(h.free k hk hkt).1] at hsame
      omega

/-- The slot of a job that is not in the table is a free one. -/
theorem Represents.find_not_mem (h : Represents samples buf table)
    (hnot : jobId ∉ table.map JobRecord.jobId) {i : ℕ}
    (hfind : buf.findJobIndex samples jobId = some i) :
    jobId = -1 ∧ buf.slotRecord i = fun _ => TimePoint.zero := by
  obtain ⟨hi, hsame⟩ := findJobIndex_some hfind
  obtain ⟨k, hk, rfl⟩ := Ring.exists_slot h.next_lt hi
  rcases Nat.lt_or_ge k table.length with hkt | hkt
  · refine absurd ?_ hnot
    rw [← hsame, h.jobIds k table[k].jobId hk (by simp [hkt])]
    exact List.mem_map_of_mem (List.getElem_mem hkt)
  · obtain ⟨hfree, hzero⟩ := h.free k hk hkt
    exact ⟨hsame.symm.trans hfree, funext hzero⟩

theorem Represents.find_none (h : Represents samples buf table) (hneg : 0 ≤ jobId)
    (hnot : jobId ∉ table.map JobRecord.jobId) : buf.findJobIndex samples jobId = none := by
  cases hfind : buf.findJobIndex samples jobId with
  | none => rfl
  | some i =>
    have hfree := (h.find_not_mem hnot hfind).1
    omega

/-- What the buffer and the table record of a job is the same. -/
theorem Represents.entry (h : Represents samples buf table) (jobId : ℤ) :
    buf.entry samples jobId = table.entry jobId := by
  by_cases hmem : jobId ∈ table.map JobRecord.jobId
  · obtain ⟨r, hr, rfl⟩ := List.mem_map.mp hmem
    obtain ⟨j, hj⟩ := List.mem_iff_getElem?.mp hr
    rw [Table.entry_of_getElem h.nodup hj, DeviceProfilerBuffer.entry, h.find hj]
    funext type
    exact h.records type j _ (h.lt hj) (by rw [List.getElem?_map, hj]; rfl)
  · rw [Table.entry_of_not_mem hmem, DeviceProfilerBuffer.entry]
    cases hfind : buf.findJobIndex samples jobId with
    | none => rfl
    | some i => exact (h.find_not_mem hmem hfind).2

theorem array_update {slot : ℕ} :
    (buf.update type slot f).array type =
      Function.update (buf.array type) slot (f (buf.array type slot)) := by
  simp only [array, update, Function.update_self, Option.getD_some]

theorem array_update_of_ne {slot : ℕ} {type' : EventType} (h : type' ≠ type) :
    (buf.update type slot f).array type' = buf.array type' := by
  simp only [array, update, Function.update_of_ne h]

/-- The record of a job of the table is changed in its slot. -/
theorem Represents.update (h : Represents samples buf table) (hr : table[j]? = some r)
    (type : EventType) (f : TimePoint → TimePoint) :
    Represents samples (buf.update type (Ring.slot samples (buf.next samples) j) f)
      (table.update r.jobId type f) where
  current := h.current
  length := by rw [Table.length_update]; exact h.length
  nodup := by rw [Table.map_jobId_update]; exact h.nodup
  nonneg := by
    intro r' hr'
    obtain ⟨r₀, hr₀, rfl⟩ := List.mem_map.mp hr'
    have hneg := h.nonneg r₀ hr₀
    split_ifs
    · exact hneg
    · exact hneg
  jobIds := by rw [Table.map_jobId_update]; exact h.jobIds
  records := by
    intro type'
    by_cases htype : type' = type
    · subst htype
      have hold : buf.array type' (Ring.slot samples (buf.next samples) j) = r.record type' :=
        h.records type' j _ (h.lt hr) (by rw [List.getElem?_map, hr]; rfl)
      rw [array_update, hold, Table.map_record_update h.nodup hr]
      exact (h.records type').set h.next_lt (h.lt hr) _
    · rw [array_update_of_ne htype, Table.map_record_update_of_ne htype]
      exact h.records type'
  free := by
    intro k hk hle
    rw [Table.length_update] at hle
    obtain ⟨hid, hzero⟩ := h.free k hk hle
    refine ⟨hid, fun type' => ?_⟩
    have hne : Ring.slot samples (buf.next samples) k ≠ Ring.slot samples (buf.next samples) j := by
      intro heq
      have hj := (List.getElem?_eq_some_iff.mp hr).1
      have hkj := Ring.slot_inj h.next_lt hk (h.lt hr) heq
      omega
    by_cases htype : type' = type
    · subst htype
      rw [array_update]
      exact (Function.update_of_ne hne _ _).trans (hzero type')
    · rw [array_update_of_ne htype]
      exact hzero type'

theorem array_advance : (buf.advance samples jobId).array type =
    Function.update (buf.array type) (buf.next samples) TimePoint.zero := by
  simp only [array, advance, next]
  cases buf.events type with
  | none => exact (Function.update_eq_self _ fun _ => TimePoint.zero).symm
  | some a => rfl

/-- A new job has the slot that is written next, also when it holds the oldest job. -/
theorem Represents.advance (h : Represents samples buf table) (hneg : 0 ≤ jobId)
    (hnot : jobId ∉ table.map JobRecord.jobId) :
    Represents samples (buf.advance samples jobId) (table.advance samples jobId) where
  current := h.next_lt
  length := by rw [Table.advance, List.length_take]; exact Nat.min_le_left _ _
  nodup := by
    rw [Table.advance, List.map_take]
    exact (List.nodup_cons.mpr ⟨hnot, h.nodup⟩).sublist (List.take_sublist _ _)
  nonneg := by
    intro r hr
    rcases List.mem_cons.mp (List.mem_of_mem_take hr) with rfl | hr
    · exact hneg
    · exact h.nonneg r hr
  jobIds := by
    rw [Table.advance, List.map_take]
    exact (h.jobIds.write h.next_lt jobId).take samples
  records := by
    intro type
    rw [Table.advance, List.map_take, array_advance]
    exact ((h.records type).write h.next_lt _).take samples
  free := by
    intro k hk hle
    rw [Table.advance, List.length_take, List.length_cons] at hle
    cases k with
    | zero => omega
    | succ k =>
      have hslot : Ring.slot samples ((buf.advance samples jobId).next samples) (k + 1) =
          Ring.slot samples (buf.next samples) k := Ring.slot_succ h.next_lt hk
      obtain ⟨hid, hzero⟩ := h.free k (by omega) (by omega)
      have hne := Ring.slot_ne_next h.next_lt hk
      rw [hslot]
      refine ⟨(Function.update_of_ne hne _ _).trans hid, fun type => ?_⟩
      rw [array_advance]
      exact (Function.update_of_ne hne _ _).trans (hzero type)

theorem Represents.record (h : Represents samples buf table) (hneg : 0 ≤ jobId) (type : EventType)
    (tp : TimePoint) :
    Represents samples (buf.record samples type jobId tp) (table.record samples type jobId tp) := by
  rw [DeviceProfilerBuffer.record, Table.record]
  split_ifs with hmem
  · obtain ⟨r, hr, rfl⟩ := List.mem_map.mp hmem
    obtain ⟨j, hj⟩ := List.mem_iff_getElem?.mp hr
    rw [h.find hj]
    exact h.update hj type _
  · have hadvance := h.advance hneg hmem
    have hfirst : (table.advance samples jobId)[0]? = some ⟨jobId, fun _ => TimePoint.zero⟩ := by
      have hpos := h.current
      rw [Table.advance, List.getElem?_take_of_lt (by omega)]
      rfl
    have hslot : Ring.slot samples ((buf.advance samples jobId).next samples) 0 =
        (buf.advance samples jobId).currentIdx := Ring.slot_zero h.next_lt
    have hupdate := hadvance.update hfirst type fun _ => tp
    rw [hslot] at hupdate
    rw [h.find_none hneg hmem]
    exact hupdate

theorem Represents.stop (h : Represents samples buf table) (hneg : 0 ≤ jobId) (type : EventType)
    (now : ℕ) : Represents samples (buf.stop samples type jobId now)
      (table.update jobId type (TimePoint.stop now)) := by
  rw [DeviceProfilerBuffer.stop]
  by_cases hmem : jobId ∈ table.map JobRecord.jobId
  · obtain ⟨r, hr, rfl⟩ := List.mem_map.mp hmem
    obtain ⟨j, hj⟩ := List.mem_iff_getElem?.mp hr
    rw [h.find hj]
    exact h.update hj type _
  · rw [h.find_none hneg hmem, Table.update_of_not_mem hmem]
    exact h

end DeviceProfilerBuffer

open DeviceProfilerBuffer

/-! ### The metrics of a job -/

/-- A duration, zero if one of the times is missing. -/
def TimePoint.duration (tp : TimePoint) : ℤ :=
  if tp.start = 0 ∨ tp.finish = 0 then 0 else tp.finish - tp.start

structure NpuDeviceMetrics where
  inputFormat : ℤ
  h2d : ℤ
  inferenceCoreAll : ℤ
  inferenceCore0 : ℤ
  inferenceCore1 : ℤ
  inferenceCore2 : ℤ
  d2h : ℤ
  outputFormat : ℤ
  total : ℤ
  taskMeasured : Bool
  deriving DecidableEq

/-- The core that was used is the first one with a time. -/
def NpuDeviceMetrics.ofRecord (record : EventType → TimePoint) : NpuDeviceMetrics :=
  let core0 := (record .inferenceCore0).duration
  let core1 := (record .inferenceCore1).duration
  let core2 := (record .inferenceCore2).duration
  { inputFormat := (record .npuInputFormat).duration
    h2d := (record .h2d).duration
    inferenceCoreAll := if 0 < core0 then core0 else if 0 < core1 then core1 else core2
    inferenceCore0 := core0
    inferenceCore1 := core1
    inferenceCore2 := core2
    d2h := (record .d2h).duration
    outputFormat := (record .npuOutputFormat).duration
    total := (record .npuTaskTotal).duration
    taskMeasured := (record .npuTaskTotal).start ≠ 0 }

def NpuDeviceMetrics.valid (m : NpuDeviceMetrics) : Bool :=
  0 < m.h2d || 0 < m.inferenceCoreAll || 0 < m.d2h

/-- The metrics of a device, if they are valid. -/
def npuDevice (record : EventType → TimePoint) : Option NpuDeviceMetrics :=
  let m := NpuDeviceMetrics.ofRecord record
  if m.valid then some m else none

structure TaskMetrics where
  devices : ℤ → Option NpuDeviceMetrics
  cpuTask : ℤ

/-- The metrics of a task, from what its devices have recorded of the job. -/
def TaskMetrics.ofRecords (record : ℤ → EventType → TimePoint) : TaskMetrics where
  devices deviceId := if deviceId = CPU_DEVICE_ID then none else npuDevice (record deviceId)
  cpuTask := (record CPU_DEVICE_ID .cpuTaskTotal).duration

end DxRt.Profiler

/-! ### The profiler -/

namespace DxRt
open Profiler DeviceProfilerBuffer

structure Profiler where
  enabled : Bool
  deviceBuffers : String → ℤ → Option DeviceProfilerBuffer

namespace Profiler
variable {samples : ℕ}

def init (enabled : Bool) : Profiler := ⟨enabled, fun _ _ => none⟩

/-- `_deviceBuffers[taskName][deviceId]` is replaced; the first access creates it. -/
def onBuffer (p : Profiler) (taskName : String) (deviceId : ℤ)
    (f : DeviceProfilerBuffer → DeviceProfilerBuffer) : Profiler :=
  { p with
    deviceBuffers := Function.update p.deviceBuffers taskName
      (Function.update (p.deviceBuffers taskName) deviceId
        (some (f ((p.deviceBuffers taskName deviceId).getD make)))) }

/-- The guards of `AddTimePoint`, `Start` and `End`; without `USE_PROFILER` there are no samples. -/
def accepts (samples : ℕ) (enabled : Bool) (type : EventType) (jobId : ℤ) : Bool :=
  enabled && samples ≠ 0 && type ≠ .unknown && 0 ≤ jobId

def addTimePoint (samples : ℕ) (p : Profiler) (type : EventType) (taskName : String)
    (deviceId jobId : ℤ) (tp : Option TimePoint) : Profiler :=
  match tp with
  | none => p
  | some tp =>
    if accepts samples p.enabled type jobId then
      p.onBuffer taskName deviceId fun buf => buf.record samples type jobId tp
    else p

def start (samples : ℕ) (p : Profiler) (type : EventType) (taskName : String)
    (deviceId jobId : ℤ) (now : ℕ) : Profiler :=
  if accepts samples p.enabled type jobId then
    p.onBuffer taskName deviceId fun buf => buf.record samples type jobId ⟨now, 0⟩
  else p

def stop (samples : ℕ) (p : Profiler) (type : EventType) (taskName : String)
    (deviceId jobId : ℤ) (now : ℕ) : Profiler :=
  if accepts samples p.enabled type jobId then
    p.onBuffer taskName deviceId fun buf => buf.stop samples type jobId now
  else p

def flush (p : Profiler) : Profiler := if p.enabled then init true else p

/-- A device without a slot for the job is skipped. -/
def getJobMetrics (samples : ℕ) (p : Profiler) (jobId : ℤ) (taskName : String) : TaskMetrics where
  devices deviceId :=
    if deviceId = CPU_DEVICE_ID then none
    else do
      let buf ← p.deviceBuffers taskName deviceId
      let slot ← buf.findJobIndex samples jobId
      npuDevice (buf.slotRecord slot)
  cpuTask :=
    match p.deviceBuffers taskName CPU_DEVICE_ID with
    | none => 0
    | some buf =>
      match buf.findJobIndex samples jobId with
      | none => 0
      | some slot => (buf.slotRecord slot .cpuTaskTotal).duration

inductive Call where
  | addTimePoint (type : EventType) (taskName : String) (deviceId jobId : ℤ)
      (tp : Option TimePoint)
  | start (type : EventType) (taskName : String) (deviceId jobId : ℤ) (now : ℕ)
  | stop (type : EventType) (taskName : String) (deviceId jobId : ℤ) (now : ℕ)
  | flush
  | setEnabled (enabled : Bool)
  | getJobMetrics (jobId : ℤ)

/-- A call, with the metrics it returns for each task. -/
def call (samples : ℕ) (p : Profiler) : Call → Profiler × Option (String → TaskMetrics)
  | .addTimePoint type taskName deviceId jobId tp =>
    (p.addTimePoint samples type taskName deviceId jobId tp, none)
  | .start type taskName deviceId jobId now =>
    (p.start samples type taskName deviceId jobId now, none)
  | .stop type taskName deviceId jobId now =>
    (p.stop samples type taskName deviceId jobId now, none)
  | .flush => (p.flush, none)
  | .setEnabled enabled => ({ p with enabled := enabled }, none)
  | .getJobMetrics jobId => (p, some (p.getJobMetrics samples jobId))

/-! ### The tables -/

/-- What the profiler is for: a table of the latest jobs for each task and device. -/
structure Tables where
  enabled : Bool
  table : String → ℤ → Table

namespace Tables

def init (enabled : Bool) : Tables := ⟨enabled, fun _ _ => []⟩

def onTable (t : Tables) (taskName : String) (deviceId : ℤ) (f : Table → Table) : Tables :=
  { t with
    table := Function.update t.table taskName
      (Function.update (t.table taskName) deviceId (f (t.table taskName deviceId))) }

def getJobMetrics (t : Tables) (jobId : ℤ) (taskName : String) : TaskMetrics :=
  TaskMetrics.ofRecords fun deviceId => (t.table taskName deviceId).entry jobId

/-- The change of the tables by an event that is accepted. -/
def event (samples : ℕ) (t : Tables) (type : EventType) (taskName : String) (deviceId jobId : ℤ)
    (f : Table → Table) : Tables :=
  if accepts samples t.enabled type jobId then t.onTable taskName deviceId f else t

def call (samples : ℕ) (t : Tables) : Call → Tables × Option (String → TaskMetrics)
  | .addTimePoint type taskName deviceId jobId tp =>
    (match tp with
      | none => t
      | some tp => t.event samples type taskName deviceId jobId fun table =>
        table.record samples type jobId tp, none)
  | .start type taskName deviceId jobId now =>
    (t.event samples type taskName deviceId jobId fun table =>
      table.record samples type jobId ⟨now, 0⟩, none)
  | .stop type taskName deviceId jobId now =>
    (t.event samples type taskName deviceId jobId fun table =>
      table.update jobId type (TimePoint.stop now), none)
  | .flush => (if t.enabled then init true else t, none)
  | .setEnabled enabled => ({ t with enabled := enabled }, none)
  | .getJobMetrics jobId => (t, some (t.getJobMetrics jobId))

end Tables

/-- A buffer that is not there represents the empty table. -/
def BufferRepresents (samples : ℕ) (buf : Option DeviceProfilerBuffer) (table : Table) : Prop :=
  match buf with
  | none => table = []
  | some buf => DeviceProfilerBuffer.Represents samples buf table

structure Represents (samples : ℕ) (p : Profiler) (t : Tables) : Prop where
  enabled : p.enabled = t.enabled
  buffers : ∀ taskName deviceId,
    BufferRepresents samples (p.deviceBuffers taskName deviceId) (t.table taskName deviceId)

variable {p : Profiler} {t : Tables} {type : EventType} {taskName : String} {deviceId jobId : ℤ}

theorem represents_init (samples : ℕ) (enabled : Bool) :
    Represents samples (init enabled) (Tables.init enabled) :=
  ⟨rfl, fun _ _ => rfl⟩

theorem BufferRepresents.getD {buf : Option DeviceProfilerBuffer} {table : Table}
    (h : BufferRepresents samples buf table) (hsamples : 1 ≤ samples) :
    DeviceProfilerBuffer.Represents samples (buf.getD make) table := by
  cases buf with
  | none =>
    obtain rfl : table = [] := h
    exact represents_make hsamples
  | some buf => exact h

theorem Represents.onBuffer (h : Represents samples p t) (hsamples : 1 ≤ samples)
    {f : DeviceProfilerBuffer → DeviceProfilerBuffer} {g : Table → Table}
    (hfg : ∀ buf table, DeviceProfilerBuffer.Represents samples buf table →
      DeviceProfilerBuffer.Represents samples (f buf) (g table)) :
    Represents samples (p.onBuffer taskName deviceId f) (t.onTable taskName deviceId g) := by
  refine ⟨h.enabled, fun taskName' deviceId' => ?_⟩
  simp only [Profiler.onBuffer, Tables.onTable]
  rcases eq_or_ne taskName' taskName with rfl | htask
  · rw [Function.update_self, Function.update_self]
    rcases eq_or_ne deviceId' deviceId with rfl | hdevice
    · rw [Function.update_self, Function.update_self]
      exact hfg _ _ ((h.buffers taskName' deviceId').getD hsamples)
    · rw [Function.update_of_ne hdevice, Function.update_of_ne hdevice]
      exact h.buffers taskName' deviceId'
  · rw [Function.update_of_ne htask, Function.update_of_ne htask]
    exact h.buffers taskName' deviceId'

/-- An event changes the buffer as it changes the table, or neither. -/
theorem Represents.event (h : Represents samples p t)
    {f : DeviceProfilerBuffer → DeviceProfilerBuffer} {g : Table → Table}
    (hfg : 0 ≤ jobId → ∀ buf table, DeviceProfilerBuffer.Represents samples buf table →
      DeviceProfilerBuffer.Represents samples (f buf) (g table)) :
    Represents samples
      (if accepts samples p.enabled type jobId then p.onBuffer taskName deviceId f else p)
      (t.event samples type taskName deviceId jobId g) := by
  rw [Tables.event, h.enabled]
  split_ifs with haccepts
  · simp only [accepts, Bool.and_eq_true, decide_eq_true_eq] at haccepts
    obtain ⟨⟨⟨_, hsamples⟩, _⟩, hneg⟩ := haccepts
    exact h.onBuffer (Nat.one_le_iff_ne_zero.mpr hsamples) (hfg hneg)
  · exact h

theorem npuDevice_zero : npuDevice (fun _ => TimePoint.zero) = none := by decide

theorem Represents.getJobMetrics (h : Represents samples p t) (jobId : ℤ) :
    p.getJobMetrics samples jobId = t.getJobMetrics jobId := by
  funext taskName
  have hentry : ∀ deviceId buf, p.deviceBuffers taskName deviceId = some buf →
      buf.entry samples jobId = (t.table taskName deviceId).entry jobId := by
    intro deviceId buf hbuf
    have hrep := h.buffers taskName deviceId
    rw [hbuf] at hrep
    exact DeviceProfilerBuffer.Represents.entry hrep jobId
  have hnone : ∀ deviceId, p.deviceBuffers taskName deviceId = none →
      (t.table taskName deviceId).entry jobId = fun _ => TimePoint.zero := by
    intro deviceId hbuf
    have hrep := h.buffers taskName deviceId
    rw [hbuf] at hrep
    have hnil : t.table taskName deviceId = [] := hrep
    rw [hnil]
    rfl
  rw [Profiler.getJobMetrics, Tables.getJobMetrics, TaskMetrics.ofRecords]
  congr 1
  · funext deviceId
    split_ifs
    · rfl
    · cases hbuf : p.deviceBuffers taskName deviceId with
      | none => rw [hnone deviceId hbuf, npuDevice_zero]; rfl
      | some buf =>
        rw [← hentry deviceId buf hbuf, DeviceProfilerBuffer.entry, Option.bind_eq_bind,
          Option.bind_some]
        cases buf.findJobIndex samples jobId with
        | none => exact npuDevice_zero.symm
        | some slot => rfl
  · cases hbuf : p.deviceBuffers taskName CPU_DEVICE_ID with
    | none => rw [hnone _ hbuf]; rfl
    | some buf =>
      rw [← hentry _ buf hbuf, DeviceProfilerBuffer.entry]
      dsimp only
      cases buf.findJobIndex samples jobId with
      | none => rfl
      | some slot => rfl

/-- Every call keeps the representation and returns the metrics of the tables. -/
theorem refines (samples : ℕ) :
    Machine.Refines (call samples) (Tables.call samples) (Represents samples) := by
  intro p t c h
  cases c with
  | addTimePoint type taskName deviceId jobId tp =>
    refine ⟨?_, rfl⟩
    cases tp with
    | none => exact h
    | some tp => exact h.event fun hneg _ _ hbuf => hbuf.record hneg type tp
  | start type taskName deviceId jobId now =>
    exact ⟨h.event fun hneg _ _ hbuf => hbuf.record hneg type ⟨now, 0⟩, rfl⟩
  | stop type taskName deviceId jobId now =>
    exact ⟨h.event fun hneg _ _ hbuf => hbuf.stop hneg type now, rfl⟩
  | flush =>
    refine ⟨?_, rfl⟩
    simp only [call, Tables.call, flush, h.enabled]
    split_ifs
    · exact represents_init samples true
    · exact h
  | setEnabled enabled => exact ⟨⟨rfl, h.buffers⟩, rfl⟩
  | getJobMetrics jobId => exact ⟨h, congrArg some (h.getJobMetrics jobId)⟩

/-- In every sequence of calls `GetJobMetrics` returns what the tables have of the latest jobs, with
    every number of samples. -/
theorem answers_eq_tables (samples : ℕ) (enabled : Bool) (calls : List Call) :
    Machine.answers (call samples) (init enabled) calls =
      Machine.answers (Tables.call samples) (Tables.init enabled) calls :=
  (refines samples).answers (represents_init samples enabled) calls

end Profiler
end DxRt
