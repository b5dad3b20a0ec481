import DxRt.Lib.Workers

/-! lib/device_shm: the shared memory in which a process publishes what its devices do.

    One process writes, with as many threads as it likes; other processes read. A writer makes the
    sequence counter odd, stores its fields, and makes the counter even again. A reader copies what it
    wants between two loads of the counter, and takes the copy only if both gave the same even number.
    Every load and every store of a field is a step of its own. A field is held as a 64-bit value. -/

namespace DxRt.Monitor

/-- The fields of `MonitorDeviceData`, those of its structures and arrays one by one: `spec` and
    `dev_info`, which are only copied whole, by position, and so the rest of `status`. -/
inductive Field where
  | deviceId
  | spec (i : Fin 76)
  | devInfo (i : Fin 39)
  | voltage (i : Fin 4)
  | clock (i : Fin 4)
  | temperature (i : Fin 4)
  | statusOther (i : Fin 22)
  | utilization (i : Fin 3)
  | memoryTotal
  | memoryUsed
  | memoryFree
  | isActive
  | inferenceCount
  deriving DecidableEq

/-- The fields in the order of the structure. -/
def Field.all : List Field :=
  List.flatten [[.deviceId], (List.finRange 76).map .spec, (List.finRange 39).map .devInfo,
    (List.finRange 4).map .voltage, (List.finRange 4).map .clock,
    (List.finRange 4).map .temperature, (List.finRange 22).map .statusOther,
    (List.finRange 3).map .utilization,
    [.memoryTotal, .memoryUsed, .memoryFree, .isActive, .inferenceCount]]

theorem Field.mem_all (f : Field) : f ∈ Field.all := by
  rw [Field.all, List.mem_flatten]
  cases f <;> simp

def MonitorDeviceData := Field → UInt64

def MAX_MONITOR_DEVICES : ℕ := 32

def MAX_SEQLOCK_RETRIES : ℕ := 1000

/-- The devices, of which `deviceCount` are published. -/
structure Contents where
  deviceCount : ℕ
  devices : ℕ → MonitorDeviceData

/-- A store to a field of a device. -/
def Contents.set (m : Contents) (i : ℕ) (f : Field) (v : UInt64) : Contents :=
  { m with devices := fun j g => if j = i ∧ g = f then v else m.devices j g }

/-- What a read returns: the device it asked for, or the first devices. -/
inductive Result where
  | device (deviceId : UInt32) (data : MonitorDeviceData)
  | all (maxCount count : ℕ) (data : ℕ → MonitorDeviceData)

/-- The result is what these contents say. -/
def Result.Of (m : Contents) : Result → Prop
  | .device deviceId data =>
    ∃ i < m.deviceCount, data = m.devices i ∧ data .deviceId = deviceId.toUInt64
  | .all maxCount count data =>
    count = min m.deviceCount maxCount ∧ ∀ i < count, data i = m.devices i

/-- The shared memory and the process that writes it. The last five fields say what goes on, and
    what has been: they are not in the memory. -/
structure State where
  contents : Contents
  sequence : UInt64
  /-- `magic` and `version` are right. -/
  formatted : Bool
  /-- `writer_pid` is not zero. -/
  writerPid : Bool
  /-- The process that writes, by its number. -/
  writer : Option ℕ
  /-- `_initialized`. -/
  initialized : Bool
  /-- How many processes have become the writer. -/
  processes : ℕ
  /-- How many threads are between `BeginWrite` and `EndWrite`. -/
  writing : ℕ
  /-- The memory is being initialised. -/
  resetting : Bool
  /-- What the reads in progress have loaded from the counter. -/
  reading : List UInt64
  /-- The contents at every moment at which nothing was being written. -/
  moments : List Contents
  returned : List Result

/-- A memory that no process writes. -/
def State.idle (contents : Contents) (sequence : UInt64) (formatted writerPid : Bool) : State :=
  ⟨contents, sequence, formatted, writerPid, none, false, 0, 0, false, [], [contents], []⟩

/-- A moment has passed. -/
def State.observe (s : State) : State :=
  if s.writing = 0 ∧ s.resetting = false then { s with moments := s.contents :: s.moments } else s

/-! ### Writers -/

inductive Update where
  | utilization (utilization : Fin 3 → UInt64)
  | memory (total used free : UInt64)
  | spec (info : Fin 76 → UInt64) (devInfo : Fin 39 → UInt64)
  | fullStatus (voltage clock temperature : Fin 4 → UInt64) (other : Fin 22 → UInt64)
  | coreStats (voltage clock temperature : Fin 3 → UInt64)
  | active (value : Bool)
  | inferenceCount

/-- The stores of an update, in order; the count of inferences is loaded first. -/
def Update.stores (count : UInt64) : Update → List (Field × UInt64)
  | .utilization u => (List.finRange 3).map fun i => (.utilization i, u i)
  | .memory total used free =>
    [(.memoryTotal, total), (.memoryUsed, used), (.memoryFree, free)]
  | .spec info devInfo =>
    ((List.finRange 76).map fun i => (.spec i, info i)) ++
      (List.finRange 39).map fun i => (.devInfo i, devInfo i)
  | .fullStatus voltage clock temperature other =>
    ((List.finRange 4).map fun i => (.voltage i, voltage i)) ++
      ((List.finRange 4).map fun i => (.clock i, clock i)) ++
      ((List.finRange 4).map fun i => (.temperature i, temperature i)) ++
      (List.finRange 22).map fun i => (.statusOther i, other i)
  | .coreStats voltage clock temperature =>
    ((List.finRange 3).map fun i => (.voltage i.castSucc, voltage i)) ++
      ((List.finRange 3).map fun i => (.clock i.castSucc, clock i)) ++
      ((List.finRange 3).map fun i => (.temperature i.castSucc, temperature i)) ++
      [(.voltage 3, 0), (.clock 3, 0), (.temperature 3, 0)]
  | .active value => [(.isActive, if value then 1 else 0)]
  | .inferenceCount => [(.inferenceCount, (count + 1) % 2 ^ 32)]

/-- A store of `MonitorSharedMemory()`. -/
inductive Store where
  | sequence
  | formatted
  | writerPid
  | deviceCount
  | field (i : ℕ) (f : Field)
  deriving DecidableEq

/-- The stores of `new (_shm_ptr) MonitorSharedMemory()`, in the order of the members. -/
def resetStores : List Store :=
  .sequence :: .formatted :: .writerPid :: .deviceCount ::
    (List.range MAX_MONITOR_DEVICES).flatMap fun i => Field.all.map (Store.field i)

def State.reset (s : State) : Store → State
  | .sequence => { s with sequence := 0 }
  | .formatted => { s with formatted := true }
  | .writerPid => { s with writerPid := false }
  | .deviceCount => { s with contents := { s.contents with deviceCount := 0 } }
  | .field i f => { s with contents := s.contents.set i f 0 }

/-- What is asked for: `ReadDeviceData` or `GetAllDevices`. -/
inductive Request where
  | device (deviceId : UInt32)
  | all (maxCount : ℕ)

inductive WriterThread where
  -- `Initialize`
  | start
  | reset (stores : List Store)
  | publish
  -- `GetDeviceData`
  | getDevice (deviceId : UInt32) (update : Update) (i : ℕ)
  | checkId (deviceId : UInt32) (update : Update) (i : ℕ)
  | addCheck (deviceId : UInt32) (update : Update)
  | addIndex (deviceId : UInt32) (update : Update)
  | addId (deviceId : UInt32) (update : Update) (i : ℕ)
  | addActive (update : Update) (i : ℕ)
  | addLoad (update : Update) (i : ℕ)
  | addStore (update : Update) (i count : ℕ)
  -- the updates
  | beginWrite (update : Update) (i : ℕ)
  | load (update : Update) (i : ℕ)
  | write (i : ℕ) (stores : List (Field × UInt64))

inductive ReaderThread where
  | loadSequence (request : Request) (retries : ℕ)
  -- `ReadDeviceData`
  | scan (deviceId : UInt32) (seq1 : UInt64) (i : ℕ)
  | checkDevice (deviceId : UInt32) (seq1 : UInt64) (i : ℕ)
  | copyDevice (deviceId : UInt32) (seq1 : UInt64) (i : ℕ) (todo : List Field)
    (data : MonitorDeviceData)
  -- `GetAllDevices`
  | count (maxCount : ℕ) (seq1 : UInt64)
  | copyAll (maxCount : ℕ) (seq1 : UInt64) (count : ℕ) (todo : List (ℕ × Field))
    (data : ℕ → MonitorDeviceData)
  | compare (request : Request) (seq1 : UInt64) (result : Option Result)

/-- Threads, those of a writer with the number of their process. -/
inductive Work where
  | writer (process : ℕ) (thread : WriterThread)
  | reader (thread : ReaderThread)

/-- Whether `kill` says that the previous writer is dead. -/
structure Circumstances where
  dead : Bool

inductive Arrival where
  | startWriter
  | crash
  | update (deviceId : UInt32) (update : Update)
  | read (request : Request)

/-- A step of a thread of the process that writes. -/
def writerStep (s : State) (e : Circumstances) : WriterThread → State × List WriterThread
  | .start =>
    if s.formatted = false then (s, [.reset resetStores])
    else if s.writerPid && e.dead then (s, [.reset resetStores])
    else (s, [.publish])
  | .reset [] => ({ s with resetting := false }, [.publish])
  | .reset (store :: stores) => ({ s.reset store with resetting := true }, [.reset stores])
  | .publish => ({ s with writerPid := true, initialized := true }, [])
  | .getDevice deviceId update i =>
    (s, [if i < s.contents.deviceCount then .checkId deviceId update i
      else .addCheck deviceId update])
  | .checkId deviceId update i =>
    (s, [if s.contents.devices i .deviceId = deviceId.toUInt64 then .beginWrite update i
      else .getDevice deviceId update (i + 1)])
  | .addCheck deviceId update =>
    (s, if s.contents.deviceCount < MAX_MONITOR_DEVICES then [.addIndex deviceId update] else [])
  | .addIndex deviceId update => (s, [.addId deviceId update s.contents.deviceCount])
  | .addId deviceId update i =>
    ({ s with contents := s.contents.set i .deviceId deviceId.toUInt64 }, [.addActive update i])
  | .addActive update i =>
    ({ s with contents := s.contents.set i .isActive 1 }, [.addLoad update i])
  | .addLoad update i => (s, [.addStore update i s.contents.deviceCount])
  | .addStore update i count =>
    ({ s with contents := { s.contents with deviceCount := count + 1 } }, [.beginWrite update i])
  | .beginWrite update i =>
    ({ s with sequence := s.sequence + 1, writing := s.writing + 1 }, [.load update i])
  | .load update i =>
    (s, [.write i (update.stores (s.contents.devices i .inferenceCount))])
  | .write i ((f, v) :: stores) =>
    ({ s with contents := s.contents.set i f v }, [.write i stores])
  -- `EndWrite`
  | .write _ [] => ({ s with sequence := s.sequence + 1, writing := s.writing - 1 }, [])

/-- A step of a reader. -/
def readerStep (s : State) : ReaderThread → State × List ReaderThread
  | .loadSequence request retries =>
    if s.sequence.toNat % 2 = 1 then
      (s, if MAX_SEQLOCK_RETRIES < retries + 1 then [] else [.loadSequence request (retries + 1)])
    else ({ s with reading := s.sequence :: s.reading }, [match request with
      | .device deviceId => .scan deviceId s.sequence 0
      | .all maxCount => .count maxCount s.sequence])
  | .scan deviceId seq1 i =>
    (s, [if i < s.contents.deviceCount then .checkDevice deviceId seq1 i
      else .compare (.device deviceId) seq1 none])
  | .checkDevice deviceId seq1 i =>
    (s, [if s.contents.devices i .deviceId = deviceId.toUInt64
      then .copyDevice deviceId seq1 i Field.all fun _ => 0 else .scan deviceId seq1 (i + 1)])
  | .copyDevice deviceId seq1 i (f :: todo) data =>
    (s, [.copyDevice deviceId seq1 i todo fun g =>
      if g = f then s.contents.devices i f else data g])
  | .copyDevice deviceId seq1 _ [] data =>
    (s, [.compare (.device deviceId) seq1 (some (.device deviceId data))])
  | .count maxCount seq1 =>
    let count := min s.contents.deviceCount maxCount
    (s, [.copyAll maxCount seq1 count
      ((List.range count).flatMap fun i => Field.all.map (i, ·)) fun _ _ => 0])
  | .copyAll maxCount seq1 count ((i, f) :: todo) data =>
    (s, [.copyAll maxCount seq1 count todo fun j g =>
      if j = i ∧ g = f then s.contents.devices i f else data j g])
  | .copyAll maxCount seq1 count [] data =>
    (s, [.compare (.all maxCount) seq1 (some (.all maxCount count data))])
  | .compare request seq1 result =>
    let reading := s.reading.erase seq1
    if s.sequence = seq1 then ({ s with reading, returned := result.toList ++ s.returned }, [])
    else ({ s with reading }, [.loadSequence request 0])

/-- A thread of a writer goes on as long as its process does. -/
def exec (s : State) (w : Work) (e : Circumstances) : Option (State × List Work) :=
  match w with
  | .writer process thread =>
    if s.writer = some process then
      let (s, threads) := writerStep s e thread
      some (s.observe, threads.map (.writer process))
    else none
  | .reader thread =>
    let (s, threads) := readerStep s thread
    some (s.observe, threads.map .reader)

/-- A process becomes the writer when there is none; a crash ends all its threads. -/
def arrive (s : State) : Arrival → Option (State × List Work)
  | .startWriter =>
    if s.writer = none then
      some ({ s with writer := some s.processes, processes := s.processes + 1 },
        [.writer s.processes .start])
    else none
  | .crash =>
    if s.writer = none then none
    else
      let s := { s with writer := none, initialized := false, writing := 0, resetting := false }
      some (s.observe, [])
  | .update deviceId update =>
    match s.writer with
    | some p =>
      if s.initialized then some (s, [.writer p (.getDevice deviceId update 0)]) else none
    | none => none
  | .read request => some (s, [.reader (.loadSequence request 0)])

def system : Workers.System State Work Circumstances Arrival := ⟨exec, arrive⟩

end DxRt.Monitor
