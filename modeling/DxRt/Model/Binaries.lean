import DxRt.Model.Parser

/-! lib/inference_engine.cpp, `buildTasksAndSubgraphMap`: the binaries of a task.

    The parser has put the sections of the header into one list for each kind, and a section that is
    missing is in no list. A task takes the place of its `rmap_info` in the list of that kind and
    looks up the other sections at the same place. So it gets its own sections when the lists do not
    get out of step before it. -/

namespace DxRt
open V8ModelParser

/-- The fields of a `Task` that come from the model; `ρ` is a parsed `rmap_info`. -/
structure ModelTask (ρ : Type) where
  name : String
  rmapInfo : Option ρ
  data : List (List UInt8)
  hasPpuBinary : Bool

namespace InferenceEngine

/-- Why there is no task: an exception, or a list that ends before the place of the task. -/
inductive Fault where
  | version
  | invalidModel
  | outOfRange
  deriving DecidableEq

/-- The three numbers of a version. -/
def convertVersion (vers : String) : Except Fault (ℤ × ℤ × ℤ) :=
  match (vers.toList.splitOn '.').map (stoInt (2 ^ 31)) with
  | some major :: some minor :: some patch :: _ => .ok (major, minor, patch)
  | _ => .error .version

/-- At least version 1.18.1. -/
def isSupporterModelVersion (vers : String) : Except Fault Bool :=
  (convertVersion vers).map fun v =>
    1 < v.1 ∨ v.1 = 1 ∧ (18 < v.2.1 ∨ v.2.1 = 18 ∧ 1 ≤ v.2.2)

/-- The element at a place of a list. -/
def element (models : List Models) (j : ℕ) : Except Fault Models :=
  match models[j]? with
  | some model => .ok model
  | none => .error .outOfRange

variable {ρ : Type} (db : BinaryInfoDatabase) (rmapInfos : List ρ)

/-- `rmapIndexMap`: the first `rmap_info` of that name. -/
def rmapIndex (order : String) : Option ℕ := db.rmapInfo.findIdx? fun model => model.name = order

/-- The binary at the place of the task, if there is one that is not empty. -/
def ppuAt (j : ℕ) : Option Models :=
  if db.dxnnFileFormatVersion = 8 then (db.ppu[j]?).filter fun ppu => 0 < ppu.size else none

/-- The data vector of an NPU task. -/
def npuData (j : ℕ) : Except Fault (List (List UInt8)) := do
  if (← isSupporterModelVersion db.compilerVersion) = false then .error .version
  let rmap ← element db.rmap j
  if rmap.buffer = [] then .error .invalidModel
  let weight ← element db.weight j
  .ok ([rmap.buffer, weight.buffer] ++ ((ppuAt db j).map Models.buffer).toList)

/-- One turn of the loop; `none` for a name that is in no list. -/
def buildTask (useOrt : Bool) (order : String) : Except Fault (Option (ModelTask ρ)) :=
  match rmapIndex db order with
  | some j => do
    let data ← npuData db j
    .ok (some ⟨order, rmapInfos[j]?, data, (ppuAt db j).isSome⟩)
  | none =>
    if useOrt then
      .ok ((db.cpuModels.find? fun model => decide (model.name = order)).map fun model =>
        ⟨order, none, [model.buffer], false⟩)
    else .ok none

/-- The loop over the tasks, with whether the last one was found; without ONNX Runtime it ends at the
    first task. -/
def buildTasks (useOrt : Bool) : List String → Bool → Except Fault (List (ModelTask ρ) × Bool)
  | [], found => .ok ([], found)
  | order :: rest, _ => do
    match ← buildTask db rmapInfos useOrt order with
    | none => buildTasks useOrt rest false
    | some task =>
      if useOrt then
        let (tasks, found) ← buildTasks useOrt rest true
        .ok (task :: tasks, found)
      else .ok ([task], true)

/-- The names of the tasks; without a graph the first NPU task. -/
def taskOrder (topoSortOrder : List String) : Except Fault (List String) :=
  if topoSortOrder = [] then (element db.rmapInfo 0).map fun model => [model.name]
  else .ok topoSortOrder

def buildTasksAndSubgraphMap (useOrt : Bool) (topoSortOrder : List String) :
    Except Fault (List (ModelTask ρ)) := do
  let order ← taskOrder db topoSortOrder
  let (tasks, found) ← buildTasks db rmapInfos useOrt order false
  if found then .ok tasks else .error .invalidModel

end InferenceEngine
end DxRt
