import Mathlib

/-! lib/inference_engine.cpp: the task graph of a model.

    `graph_info` lists the tasks of a model with their tensors; an output tensor names the tasks
    that use it. `buildTasksAndSubgraphMap` keeps the tasks in that order and takes the first task
    flagged as head for `_head`, `buildTaskGraph` derives the successors of each task from the users
    of its outputs. Names of tasks and tensors are of any type with decidable equality. -/

set_option linter.unusedSectionVars false

namespace DxRt.Inference
variable {τ ν : Type*} [DecidableEq τ] [DecidableEq ν]

/-- An output tensor of `graph_info`. -/
structure TensorInfo (τ ν : Type*) where
  name : ν
  users : List τ
  deriving DecidableEq

inductive Processor
  | npu
  | cpu
  deriving DecidableEq

/-- What a job reads of a task and its subgraph; of the inputs only the names matter. -/
structure Task (τ ν : Type*) where
  name : τ
  inputs : List ν
  outputs : List (TensorInfo τ ν)
  isHead : Bool
  isTail : Bool
  processor : Processor
  deriving DecidableEq

def Task.outputNames (t : Task τ ν) : List ν := t.outputs.map TensorInfo.name

/-- `_tasks`, `_modelInputOrder` and `_lastOutputOrder`. -/
structure Graph (τ ν : Type*) where
  tasks : List (Task τ ν)
  modelInputs : List ν
  lastOutputOrder : List ν

namespace Graph
variable {g : Graph τ ν} {t u : Task τ ν} {x : ν}

/-- `_taskMap.find`: `_taskMap[task->name()] = task` leaves the last task of a name. -/
def taskMap (g : Graph τ ν) (name : τ) : Option (Task τ ν) :=
  g.tasks.reverse.find? fun t => t.name = name

/-- The first task of a name, as `startMultiInputJob` looks it up. -/
def findTask (g : Graph τ ν) (name : τ) : Option (Task τ ν) :=
  g.tasks.find? fun t => t.name = name

/-- `_head`: the first task flagged as head. -/
def head (g : Graph τ ν) : Option (Task τ ν) := g.tasks.find? fun t => t.isHead

/-- Appends the task of that name, if there is one and it is not listed yet. -/
def addNext (g : Graph τ ν) (nexts : List (Task τ ν)) (name : τ) : List (Task τ ν) :=
  match g.taskMap name with
  | none => nexts
  | some u => if u ∈ nexts then nexts else nexts ++ [u]

/-- `nexts()` after `buildTaskGraph`. -/
def nexts (g : Graph τ ν) (t : Task τ ν) : List (Task τ ν) :=
  (t.outputs.flatMap TensorInfo.users).foldl g.addNext []

/-- `_inputTasks` after `buildInputTensorMapping`, as a set: the tasks with a model input. -/
def inputTasks (g : Graph τ ν) : List (Task τ ν) :=
  g.tasks.filter fun t => g.modelInputs.any fun x => x ∈ t.inputs

/-- `_isMultiInput && _inputTasks.size() == 1`. -/
def shouldAutoSplitInput (g : Graph τ ν) : Bool :=
  g.modelInputs.length > 1 && g.inputTasks.length == 1

/-- The tensors at hand suffice for the first task; with its outputs, for the second; and so on. -/
def Topological : List ν → List (Task τ ν) → Prop
  | _, [] => True
  | known, t :: ts => (∀ x ∈ t.inputs, x ∈ known) ∧ Topological (known ++ t.outputNames) ts

/-- A task reads an output of some task. -/
def HasProducer (g : Graph τ ν) (t : Task τ ν) : Prop :=
  ∃ u ∈ g.tasks, ∃ x ∈ u.outputNames, x ∈ t.inputs

/-- `graph_info` describes an acyclic graph: every tensor is a model input or the output of one
    task, the users are exactly the consumers, the heads exactly the readers of a model input. -/
structure Described (g : Graph τ ν) : Prop where
  nonempty : g.tasks ≠ []
  nodup : (g.tasks.map Task.name).Nodup
  acyclic : ∃ ts : List (Task τ ν), ts.Perm g.tasks ∧ Topological g.modelInputs ts
  owner : ∀ t ∈ g.tasks, ∀ u ∈ g.tasks, ∀ x ∈ t.outputNames, x ∈ u.outputNames → t = u
  notInput : ∀ t ∈ g.tasks, ∀ x ∈ t.outputNames, x ∉ g.modelInputs
  usersConsume : ∀ t ∈ g.tasks, ∀ o ∈ t.outputs, ∀ name ∈ o.users,
    ∃ u ∈ g.tasks, u.name = name ∧ o.name ∈ u.inputs
  consumersUse : ∀ t ∈ g.tasks, ∀ o ∈ t.outputs, ∀ u ∈ g.tasks, o.name ∈ u.inputs → u.name ∈ o.users
  hasInput : ∀ t ∈ g.tasks, t.inputs ≠ []
  heads : ∀ t ∈ g.tasks, t.isHead = true ↔ ∃ x ∈ t.inputs, x ∈ g.modelInputs

/-- The tasks are moreover listed in topological order. -/
structure Consistent (g : Graph τ ν) : Prop extends Described g where
  topological : Topological g.modelInputs g.tasks

/-- A task that may be sent at once: it reads model inputs only. -/
def Source (g : Graph τ ν) (t : Task τ ν) : Prop := t ∈ g.tasks ∧ ¬ g.HasProducer t

/-! ### Successors -/

theorem mem_addNext {nexts : List (Task τ ν)} {name : τ} :
    u ∈ g.addNext nexts name ↔ u ∈ nexts ∨ g.taskMap name = some u := by
  unfold addNext
  cases hmap : g.taskMap name with
  | none => simp
  | some v =>
    by_cases hv : v ∈ nexts
    · simp only [hv, if_true, Option.some.injEq, iff_self_or]
      rintro rfl
      exact hv
    · simp [hv, eq_comm]

theorem mem_foldl_addNext (names : List τ) {nexts : List (Task τ ν)} :
    u ∈ names.foldl g.addNext nexts ↔ u ∈ nexts ∨ ∃ name ∈ names, g.taskMap name = some u := by
  induction names generalizing nexts with
  | nil => simp
  | cons name names ih => simp [ih, mem_addNext, or_assoc]

theorem mem_nexts : u ∈ g.nexts t ↔ ∃ o ∈ t.outputs, ∃ name ∈ o.users, g.taskMap name = some u := by
  rw [nexts, mem_foldl_addNext]
  simp only [List.not_mem_nil, false_or, List.mem_flatMap]
  constructor
  · rintro ⟨name, ⟨o, ho, hname⟩, hu⟩
    exact ⟨o, ho, name, hname, hu⟩
  · rintro ⟨o, ho, name, hname, hu⟩
    exact ⟨name, ⟨o, ho, hname⟩, hu⟩

theorem mem_of_taskMap {name : τ} (h : g.taskMap name = some t) : t ∈ g.tasks ∧ t.name = name := by
  have hmem := List.mem_of_find?_eq_some h
  have hname := List.find?_some h
  exact ⟨List.mem_reverse.mp hmem, by simpa using hname⟩

theorem mem_of_findTask {name : τ} (h : g.findTask name = some t) :
    t ∈ g.tasks ∧ t.name = name := by
  have hname := List.find?_some h
  exact ⟨List.mem_of_find?_eq_some h, by simpa using hname⟩

theorem Topological.induction {P : Task τ ν → Prop} {known : List ν} {ts : List (Task τ ν)}
    (h : Topological known ts)
    (step : ∀ t ∈ ts, (∀ x ∈ t.inputs, x ∈ known ∨ ∃ u ∈ ts, x ∈ u.outputNames ∧ P u) → P t) :
    ∀ t ∈ ts, P t := by
  induction ts generalizing known with
  | nil => simp
  | cons u ts ih =>
    have hu : P u := step u List.mem_cons_self fun x hx => .inl (h.1 x hx)
    have hts : ∀ t ∈ ts, P t := by
      refine ih h.2 fun t ht hin => step t (List.mem_cons_of_mem _ ht) fun x hx => ?_
      rcases hin x hx with hknown | ⟨v, hv, hxv, hPv⟩
      · rcases List.mem_append.mp hknown with hk | hout
        · exact .inl hk
        · exact .inr ⟨u, List.mem_cons_self, hout, hu⟩
      · exact .inr ⟨v, List.mem_cons_of_mem _ hv, hxv, hPv⟩
    intro t ht
    rcases List.mem_cons.mp ht with rfl | ht
    · exact hu
    · exact hts t ht

namespace Described

theorem eq_of_name (hg : g.Described) (ht : t ∈ g.tasks) (hu : u ∈ g.tasks)
    (h : t.name = u.name) : t = u :=
  List.inj_on_of_nodup_map hg.nodup ht hu h

theorem taskMap_name (hg : g.Described) (ht : t ∈ g.tasks) : g.taskMap t.name = some t := by
  cases hmap : g.taskMap t.name with
  | none =>
    have hnone := List.find?_eq_none.mp hmap t (List.mem_reverse.mpr ht)
    simp at hnone
  | some u =>
    obtain ⟨hu, hname⟩ := mem_of_taskMap hmap
    rw [hg.eq_of_name hu ht hname]

theorem findTask_name (hg : g.Described) (ht : t ∈ g.tasks) : g.findTask t.name = some t := by
  cases hmap : g.findTask t.name with
  | none =>
    have hnone := List.find?_eq_none.mp hmap t ht
    simp at hnone
  | some u =>
    obtain ⟨hu, hname⟩ := mem_of_findTask hmap
    rw [hg.eq_of_name hu ht hname]

/-- The successors of a task are the tasks that read one of its outputs. -/
theorem mem_nexts_iff (hg : g.Described) (ht : t ∈ g.tasks) :
    u ∈ g.nexts t ↔ u ∈ g.tasks ∧ ∃ x ∈ t.outputNames, x ∈ u.inputs := by
  rw [mem_nexts]
  constructor
  · rintro ⟨o, ho, name, hname, hmap⟩
    obtain ⟨hu, rfl⟩ := mem_of_taskMap hmap
    obtain ⟨v, hv, hvu, hin⟩ := hg.usersConsume t ht o ho u.name hname
    rw [hg.eq_of_name hv hu hvu] at hin
    exact ⟨hu, o.name, List.mem_map_of_mem ho, hin⟩
  · rintro ⟨hu, x, hx, hin⟩
    obtain ⟨o, ho, rfl⟩ := List.mem_map.mp hx
    exact ⟨o, ho, u.name, hg.consumersUse t ht o ho u hu hin, hg.taskMap_name hu⟩

theorem hasProducer_of_nexts (hg : g.Described) (ht : t ∈ g.tasks) (hu : u ∈ g.nexts t) :
    g.HasProducer u := by
  obtain ⟨_, x, hx, hin⟩ := (hg.mem_nexts_iff ht).mp hu
  exact ⟨t, ht, x, hx, hin⟩

/-! ### The head -/

/-- The first task of a topological order reads model inputs only. -/
theorem source_of_topological (hg : g.Described) {ts : List (Task τ ν)} (hperm : (t :: ts).Perm g.tasks)
    (htop : Topological g.modelInputs (t :: ts)) : g.Source t := by
  refine ⟨hperm.subset List.mem_cons_self, ?_⟩
  rintro ⟨u, hu, x, hx, hin⟩
  exact hg.notInput u hu x hx (htop.1 x hin)

theorem exists_source (hg : g.Described) : ∃ t, g.Source t := by
  obtain ⟨ts, hperm, htop⟩ := hg.acyclic
  cases ts with
  | nil => exact absurd hperm.symm.eq_nil hg.nonempty
  | cons t ts => exact ⟨t, hg.source_of_topological hperm htop⟩

/-- In topological order, what holds of a task once it holds of the tasks it reads from holds of all
    tasks. -/
theorem induction {P : Task τ ν → Prop} (hg : g.Described)
    (step : ∀ t ∈ g.tasks,
      (∀ x ∈ t.inputs, x ∈ g.modelInputs ∨ ∃ u ∈ g.tasks, x ∈ u.outputNames ∧ P u) → P t) :
    ∀ t ∈ g.tasks, P t := by
  obtain ⟨ts, hperm, htop⟩ := hg.acyclic
  have hts : ∀ t ∈ ts, P t := by
    refine htop.induction fun t ht hin => step t (hperm.subset ht) fun x hx => ?_
    refine (hin x hx).imp_right ?_
    rintro ⟨u, hu, hxu, hPu⟩
    exact ⟨u, hperm.subset hu, hxu, hPu⟩
  exact fun t ht => hts t (hperm.symm.subset ht)

theorem input_cases (hg : g.Described) :
    ∀ t ∈ g.tasks, ∀ x ∈ t.inputs, x ∈ g.modelInputs ∨ ∃ u ∈ g.tasks, x ∈ u.outputNames := by
  refine hg.induction fun t _ hin x hx => (hin x hx).imp_right ?_
  rintro ⟨u, hu, hxu, _⟩
  exact ⟨u, hu, hxu⟩

/-- A source reads a model input, so it is flagged as head. -/
theorem isHead_of_source (hg : g.Described) (ht : g.Source t) : t.isHead = true := by
  obtain ⟨x, hx⟩ := List.exists_mem_of_ne_nil _ (hg.hasInput t ht.1)
  refine (hg.heads t ht.1).mpr ⟨x, hx, (hg.input_cases t ht.1 x hx).resolve_right ?_⟩
  rintro ⟨u, hu, hxu⟩
  exact ht.2 ⟨u, hu, x, hxu, hx⟩

theorem exists_head (hg : g.Described) : ∃ h, g.head = some h ∧ h ∈ g.tasks := by
  obtain ⟨t, ht⟩ := hg.exists_source
  have hsome : g.head.isSome := by
    rw [head, List.find?_isSome]
    exact ⟨t, ht.1, hg.isHead_of_source ht⟩
  obtain ⟨h, hh⟩ := Option.isSome_iff_exists.mp hsome
  exact ⟨h, hh, List.mem_of_find?_eq_some hh⟩

/-- If every other task reads from a task, the head does not. -/
theorem source_head (hg : g.Described) (hcond : ∀ t ∈ g.tasks, g.head = some t ∨ g.HasProducer t)
    (hh : g.head = some t) : g.Source t := by
  obtain ⟨u, hu⟩ := hg.exists_source
  have huh := (hcond u hu.1).resolve_right hu.2
  rw [hh, Option.some.injEq] at huh
  exact huh ▸ hu

end Described

/-- In a topological listing the first task is the head. -/
theorem Consistent.source_head (hg : g.Consistent) (hh : g.head = some t) : g.Source t := by
  obtain ⟨h, ts, hts⟩ := List.exists_cons_of_ne_nil hg.nonempty
  have hsource : g.Source h :=
    hg.source_of_topological (.of_eq hts.symm) (hts ▸ hg.topological)
  have hhead : g.head = some h := by simp [head, hts, hg.isHead_of_source hsource]
  rw [hh, Option.some.injEq] at hhead
  exact hhead ▸ hsource

end Graph
end DxRt.Inference
