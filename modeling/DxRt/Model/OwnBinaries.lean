import DxRt.Model.Binaries

/-! Which binaries a task gets.

    The header is a list of models, each with some of its sections. The lists of the parser are the
    sections of one kind of all models, so a section of a model stands at the place that is the number
    of models before it which have that kind of section. -/

namespace DxRt
open V8ModelParser

/-! ### The models of a header -/

/-- A model of the header with the sections it has. -/
structure Entry where
  name : String
  rmap : Option Models
  weight : Option Models
  rmapInfo : Option Models
  bitmatch : Option Models
  ppu : Option Models
  deriving DecidableEq

/-- The PPU binary, if it is not empty. -/
def Entry.binary (e : Entry) : Option Models := e.ppu.filter fun ppu => 0 < ppu.size

namespace Entry
variable (file : ModelFile)

def parse (npuName : String) (entry : String × Value) : Option Entry := do
  let members ← file.members entry.2
  let model : Models := { Models.new with npu := npuName, name := entry.1 }
  let rmap ← optionalSection members "rmap" model
  let weight ← optionalSection members "weight" model
  let rmapInfo ← optionalSection members "rmap_info" model
  let bitmatch ← optionalSection members "bitmatch" model
  let ppu ← optionalSection members "ppu" model
  pure ⟨entry.1, rmap, weight, rmapInfo, bitmatch, ppu⟩

/-- The sections of one model at the end of the lists. -/
def push (param : BinaryInfoDatabase) (e : Entry) : BinaryInfoDatabase :=
  { param with
    rmap := param.rmap ++ e.rmap.toList
    weight := param.weight ++ e.weight.toList
    rmapInfo := param.rmapInfo ++ e.rmapInfo.toList
    bitmatchMask := param.bitmatchMask ++ e.bitmatch.toList
    ppu := param.ppu ++ e.binary.toList }

theorem parseCompiledModel_eq (npuName : String) (param : BinaryInfoDatabase)
    (entry : String × Value) :
    parseCompiledModel file npuName param entry = (parse file npuName entry).map (push param) := by
  simp only [parseCompiledModel, parse, Option.bind_eq_bind, Option.map_bind, Function.comp_def,
    Option.pure_def, Option.map_some]
  rfl

theorem name_of_optionalSection {members : List (String × Value)} {kind : String}
    {model found : Models} (h : optionalSection members kind model = some (some found)) :
    found.name = model.name := by
  rw [optionalSection] at h
  split at h
  · obtain ⟨parsed, hparsed, heq⟩ := Option.map_eq_some_iff.mp h
    obtain rfl := Option.some.inj heq
    simp only [parseModelsOffsetSize, Option.bind_eq_bind, Option.bind_eq_some_iff,
      Option.pure_def, Option.some.injEq] at hparsed
    obtain ⟨offset, -, size, -, rfl⟩ := hparsed
    rfl
  · cases h

/-- A section of a model carries its name. -/
theorem name_of_parse {npuName : String} {entry : String × Value} {e : Entry}
    (h : parse file npuName entry = some e) {model : Models} (hmodel : e.rmapInfo = some model) :
    model.name = e.name := by
  simp only [parse, Option.bind_eq_bind, Option.bind_eq_some_iff, Option.pure_def,
    Option.some.injEq] at h
  obtain ⟨members, -, rmap, -, weight, -, rmapInfo, hinfo, bitmatch, -, ppu, -, rfl⟩ := h
  obtain rfl : rmapInfo = some model := hmodel
  exact name_of_optionalSection hinfo

end Entry
variable (file : ModelFile)

theorem foldlM_map {α β γ : Type} {f : β → α → Option β} {g : α → Option γ} {put : β → γ → β}
    (hf : ∀ b a, f b a = (g a).map (put b)) (l : List α) (b : β) :
    l.foldlM f b = (l.mapM g).map (fun cs => cs.foldl put b) := by
  induction l generalizing b with
  | nil => rfl
  | cons a l ih =>
    rw [List.foldlM_cons, List.mapM_cons, hf]
    cases g a with
    | none => rfl
    | some c =>
      simp only [Option.map_some, Option.bind_eq_bind, Option.bind_some, ih]
      cases l.mapM g <;> rfl

/-- The models of the field `compiled_data`. -/
def headerEntries (dataObj : List (String × Value)) : Option (List Entry) :=
  match getMember dataObj "compiled_data" with
  | some (.object npus) =>
    (npus.mapM fun npu : String × Value =>
      (file.members npu.2).bind (List.mapM (Entry.parse file npu.1))).map List.flatten
  | _ => some []

theorem parseCompiledData_eq (dataObj : List (String × Value)) (param : BinaryInfoDatabase) :
    parseCompiledData file dataObj param =
      (headerEntries file dataObj).map (List.foldl Entry.push param) := by
  rw [parseCompiledData, headerEntries]
  cases getMember dataObj "compiled_data" with
  | none => rfl
  | some value =>
    cases value with
    | object npus =>
      have hnpu : ∀ (param : BinaryInfoDatabase) (npu : String × Value),
          parseCompiledDataForNpu file param npu =
            ((file.members npu.2).bind (List.mapM (Entry.parse file npu.1))).map
              (List.foldl Entry.push param) := by
        intro param npu
        rw [parseCompiledDataForNpu]
        cases file.members npu.2 with
        | none => rfl
        | some members =>
          exact foldlM_map (Entry.parseCompiledModel_eq file npu.1) members param
      simp only [foldlM_map hnpu, Option.map_map, Function.comp_def, List.foldl_flatten]
    | _ => rfl

theorem foldl_push (es : List Entry) (param : BinaryInfoDatabase) :
    es.foldl Entry.push param = { param with
      rmap := param.rmap ++ es.filterMap Entry.rmap
      weight := param.weight ++ es.filterMap Entry.weight
      rmapInfo := param.rmapInfo ++ es.filterMap Entry.rmapInfo
      bitmatchMask := param.bitmatchMask ++ es.filterMap Entry.bitmatch
      ppu := param.ppu ++ es.filterMap Entry.binary } := by
  induction es generalizing param with
  | nil => simp
  | cons e es ih =>
    have hput : ∀ (l : List Models) (f : Entry → Option Models),
        (l ++ (f e).toList) ++ es.filterMap f = l ++ (e :: es).filterMap f := by
      intro l f
      rw [List.filterMap_cons, List.append_assoc]
      cases f e <;> rfl
    rw [List.foldl_cons, ih]
    simp only [Entry.push, hput]

theorem mem_of_mapM {α β : Type} {f : α → Option β} {l : List α} {bs : List β}
    (h : l.mapM f = some bs) : ∀ b ∈ bs, ∃ a ∈ l, f a = some b := by
  induction l generalizing bs with
  | nil =>
    obtain rfl : [] = bs := Option.some.inj h
    intro b hb
    exact absurd hb List.not_mem_nil
  | cons a l ih =>
    simp only [List.mapM_cons, Option.bind_eq_bind, Option.bind_eq_some_iff, Option.pure_def,
      Option.some.injEq] at h
    obtain ⟨c, hc, cs, hcs, rfl⟩ := h
    intro b hb
    rcases List.mem_cons.mp hb with rfl | hb
    · exact ⟨a, List.mem_cons_self, hc⟩
    · obtain ⟨a', ha', hf⟩ := ih hcs b hb
      exact ⟨a', List.mem_cons_of_mem _ ha', hf⟩

theorem name_of_headerEntries {dataObj : List (String × Value)} {es : List Entry}
    (h : headerEntries file dataObj = some es) :
    ∀ e ∈ es, ∀ model, e.rmapInfo = some model → model.name = e.name := by
  intro e he
  rw [headerEntries] at h
  split at h
  · obtain ⟨parsed, hparsed, rfl⟩ := Option.map_eq_some_iff.mp h
    obtain ⟨l, hl, hel⟩ := List.mem_flatten.mp he
    obtain ⟨npu, -, hnpu⟩ := mem_of_mapM hparsed l hl
    obtain ⟨members, -, hmembers⟩ := Option.bind_eq_some_iff.mp hnpu
    obtain ⟨entry, -, hentry⟩ := mem_of_mapM hmembers e hel
    exact fun model hmodel => Entry.name_of_parse file hentry hmodel
  · obtain rfl := Option.some.inj h
    exact absurd he List.not_mem_nil

/-! ### The loaded file -/

/-- The bytes of a section. -/
def bytes (model : Models) : List UInt8 :=
  Reads.block file.mem (8192 + model.offset) model.size

/-- The models of the header of a file. -/
def fileEntries : Option (List Entry) :=
  (header file).bind fun members =>
    match getMember members "data" with
    | some (.object dataObj) => headerEntries file dataObj
    | _ => some []

/-- The lists of a loaded file are the sections of its models, with their bytes. -/
structure Loaded (es : List Entry) (db : BinaryInfoDatabase) : Prop where
  rmap : db.rmap = (es.filterMap Entry.rmap).map fun m => { m with buffer := bytes file m }
  weight : db.weight = (es.filterMap Entry.weight).map fun m => { m with buffer := bytes file m }
  rmapInfo : db.rmapInfo = (es.filterMap Entry.rmapInfo).map fun m => { m with str := bytes file m }
  ppu : db.ppu = (es.filterMap Entry.binary).map fun m => { m with buffer := bytes file m }
  version : db.dxnnFileFormatVersion = 8

/-- The lists that `parseCompiledData` fills are the ones of `param`. -/
structure SameLists (param parsed : BinaryInfoDatabase) : Prop where
  rmap : parsed.rmap = param.rmap
  weight : parsed.weight = param.weight
  rmapInfo : parsed.rmapInfo = param.rmapInfo
  ppu : parsed.ppu = param.ppu
  version : parsed.dxnnFileFormatVersion = param.dxnnFileFormatVersion

theorem SameLists.refl (param : BinaryInfoDatabase) : SameLists param param :=
  ⟨rfl, rfl, rfl, rfl, rfl⟩

theorem SameLists.trans {p q r : BinaryInfoDatabase} (h : SameLists p q) (h' : SameLists q r) :
    SameLists p r :=
  ⟨h'.rmap.trans h.rmap, h'.weight.trans h.weight, h'.rmapInfo.trans h.rmapInfo,
    h'.ppu.trans h.ppu, h'.version.trans h.version⟩

theorem foldlM_induction {α β : Type} {P : β → Prop} {f : β → α → Option β}
    (hf : ∀ b a b', f b a = some b' → P b → P b') {l : List α} {b b' : β}
    (h : l.foldlM f b = some b') (hb : P b) : P b' := by
  induction l generalizing b with
  | nil =>
    obtain rfl : b = b' := Option.some.inj h
    exact hb
  | cons a l ih =>
    rw [List.foldlM_cons] at h
    obtain ⟨c, hc, hrest⟩ := Option.bind_eq_some_iff.mp h
    exact ih hrest (hf b a c hc hb)

variable {file} {dataObj : List (String × Value)} {useOrt : Bool}
  {param parsed db : BinaryInfoDatabase} {es : List Entry}

theorem sameLists_parseCpuModels (h : parseCpuModels file useOrt dataObj param = some parsed) :
    SameLists param parsed := by
  unfold parseCpuModels at h
  split at h
  · refine foldlM_induction (fun b a b' hb' hb => ?_) h (.refl param)
    simp only [Option.bind_eq_bind, Option.bind_eq_some_iff, Option.pure_def,
      Option.some.injEq] at hb'
    obtain ⟨members, -, model, -, rfl⟩ := hb'
    exact hb.trans ⟨rfl, rfl, rfl, rfl, rfl⟩
  · obtain rfl := Option.some.inj h
    exact .refl param

theorem sameLists_parseGraphInfo (h : parseGraphInfo dataObj param = some parsed) :
    SameLists param parsed := by
  rw [parseGraphInfo] at h
  split at h
  · obtain ⟨model, -, rfl⟩ := Option.map_eq_some_iff.mp h
    exact ⟨rfl, rfl, rfl, rfl, rfl⟩
  · obtain rfl := Option.some.inj h
    exact .refl param

theorem sameLists_readCompileVersion (config : List (String × Value)) :
    SameLists param (readCompileVersion config param) := by
  rw [readCompileVersion]
  split
  · exact ⟨rfl, rfl, rfl, rfl, rfl⟩
  · exact .refl param

theorem sameLists_readPpuType (config : List (String × Value)) :
    SameLists param (readPpuType config param) := by
  rw [readPpuType]
  split
  · split
    · split_ifs
      · exact ⟨rfl, rfl, rfl, rfl, rfl⟩
      · exact .refl param
    · exact .refl param
  · exact .refl param

theorem sameLists_parseCompileConfig
    (h : (parseCompileConfig file dataObj param).result = some parsed) :
    SameLists param parsed := by
  rw [parseCompileConfig, Reads.result_bind] at h
  obtain ⟨found, -, hfound⟩ := Option.bind_eq_some_iff.mp h
  cases found with
  | none =>
    obtain rfl := Option.some.inj hfound
    exact .refl param
  | some model =>
    simp only [Reads.result_bind, Reads.result_lift, Reads.result_pure,
      Option.bind_eq_some_iff, Option.some.injEq] at hfound
    obtain ⟨str, -, config, -, rfl⟩ := hfound
    exact (sameLists_readCompileVersion config).trans (sameLists_readPpuType config)

theorem copyBinaryData_eq (a b : Models) (h : (copyBinaryData file a).result = some b) :
    b = { a with buffer := bytes file a } := by
  simp only [copyBinaryData, readSection, Reads.result_bind, Reads.result_copy,
    Reads.result_pure, Option.bind_eq_some_iff, Option.some.injEq] at h
  obtain ⟨str, hstr, rfl⟩ := h
  split_ifs at hstr
  rw [← Option.some.inj hstr, bytes]

theorem copyStringData_eq (a b : Models) (h : (copyStringData file a).result = some b) :
    b = { a with str := bytes file a } := by
  simp only [copyStringData, readSection, Reads.result_bind, Reads.result_copy,
    Reads.result_pure, Option.bind_eq_some_iff, Option.some.injEq] at h
  obtain ⟨str, hstr, rfl⟩ := h
  split_ifs at hstr
  rw [← Option.some.inj hstr, bytes]

/-- The database of a version 8 file before the header is parsed. -/
def version8 : BinaryInfoDatabase := { BinaryInfoDatabase.new with dxnnFileFormatVersion := 8 }

theorem sameLists_parseDataSection
    (h : (parseDataSection file useOrt dataObj version8).result = some parsed) :
    ∃ es, headerEntries file dataObj = some es ∧ SameLists (es.foldl Entry.push version8) parsed := by
  simp only [parseDataSection, Reads.result_bind, Reads.result_lift, Option.bind_eq_some_iff] at h
  obtain ⟨p, hcpu, q, hconfig, r, hgraph, hcompiled⟩ := h
  have hsame := (sameLists_parseCpuModels hcpu).trans
    ((sameLists_parseCompileConfig hconfig).trans (sameLists_parseGraphInfo hgraph))
  rw [parseCompiledData_eq] at hcompiled
  obtain ⟨es, hes, rfl⟩ := Option.map_eq_some_iff.mp hcompiled
  refine ⟨es, hes, ?_⟩
  rw [foldl_push, foldl_push]
  exact ⟨by rw [hsame.rmap], by rw [hsame.weight], by rw [hsame.rmapInfo], by rw [hsame.ppu],
    hsame.version⟩

/-- Copying the sections of the header. -/
theorem loaded_copySections (hlists : SameLists (es.foldl Entry.push version8) param)
    (h : (copySections file param).result = some db) : Loaded file es db := by
  simp only [copySections, Reads.result_bind, Reads.result_pure, Option.bind_eq_some_iff,
    Option.some.injEq] at h
  obtain ⟨_, -, _, -, rmap, hrmap, weight, hweight, rmapInfo, hinfo, _, -, ppu, hppu, rfl⟩ := h
  rw [foldl_push] at hlists
  refine ⟨?_, ?_, ?_, ?_, hlists.version⟩
  · rw [Reads.result_each copyBinaryData_eq hrmap, hlists.rmap]
    rfl
  · rw [Reads.result_each copyBinaryData_eq hweight, hlists.weight]
    rfl
  · rw [Reads.result_each copyStringData_eq hinfo, hlists.rmapInfo]
    rfl
  · rw [Reads.result_each copyBinaryData_eq hppu, hlists.ppu]
    rfl

theorem loaded_loadBinaryInfo (h : (loadBinaryInfo file useOrt .new).result = some db) :
    ∃ es, fileEntries file = some es ∧ Loaded file es db := by
  rw [loadBinaryInfo, Reads.result_bind, Reads.result_range, Option.bind_some] at h
  by_cases hsign : Reads.block file.mem 0 4 = signature
  swap
  · rw [if_pos hsign] at h
    cases h
  rw [if_neg (not_not.mpr hsign), Reads.result_bind, Reads.result_range, Option.bind_some] at h
  by_cases hversion : formatVersion file = 8
  swap
  · rw [if_pos hversion, ite_self] at h
    cases h
  rw [hversion, if_neg (by omega), if_neg (not_not.mpr rfl)] at h
  simp only [loadHeader, Reads.result_bind, Reads.result_copy, Reads.result_lift,
    Option.bind_eq_some_iff] at h
  obtain ⟨text, htext, document, hdocument, members, hmembers, hload⟩ := h
  split_ifs at htext
  obtain rfl := Option.some.inj htext
  have hheader : header file = some members := by
    rw [header, Option.bind_eq_some_iff]
    exact ⟨document, hdocument, hmembers⟩
  rw [fileEntries, hheader, Option.bind_some]
  -- without the field `data` there are no models
  have hpure : (pure version8 >>= copySections file).result = some db →
      ∃ es, some [] = some es ∧ Loaded file es db :=
    fun h => ⟨[], rfl, loaded_copySections (.refl version8) h⟩
  cases hdata : getMember members "data" with
  | none =>
    rw [hdata] at hload
    exact hpure hload
  | some value =>
    rw [hdata] at hload
    cases value with
    | object dataObj =>
      change (parseDataSection file useOrt dataObj version8 >>= copySections file).result = _
        at hload
      rw [Reads.result_bind] at hload
      obtain ⟨param, hparam, hcopy⟩ := Option.bind_eq_some_iff.mp hload
      obtain ⟨es, hes, hlists⟩ := sameLists_parseDataSection hparam
      exact ⟨es, hes, loaded_copySections hlists hcopy⟩
    | _ => exact hpure hload

/-! ### Places in the lists -/

/-- `e` is the header entry of its task, after the models of `before`: the first of its name that has
    an `rmap_info`. -/
structure Belongs (es before : List Entry) (e : Entry) : Prop where
  split : ∃ after, es = before ++ e :: after
  info : e.rmapInfo.isSome
  first : ∀ b ∈ before, b.rmapInfo.isSome → b.name ≠ e.name

/-- The section of one kind at the place of the task. -/
def placed (kind : Entry → Option Models) (es before : List Entry) : Option Models :=
  (es.filterMap kind)[(before.filterMap Entry.rmapInfo).length]?

/-- The binaries of a model. -/
def ownData (file : ModelFile) (e : Entry) : List (List UInt8) :=
  (e.rmap.toList ++ e.weight.toList ++ e.binary.toList).map (bytes file)

/-- At the place of the task stand its own sections, or sections with the same bytes. -/
structure InStep (file : ModelFile) (es before : List Entry) (e : Entry) : Prop where
  hasRmap : e.rmap.isSome
  hasWeight : e.weight.isSome
  rmap : (placed Entry.rmap es before).map (bytes file) = e.rmap.map (bytes file)
  weight : (placed Entry.weight es before).map (bytes file) = e.weight.map (bytes file)
  ppu : (placed Entry.binary es before).map (bytes file) = e.binary.map (bytes file)

namespace InferenceEngine
variable {before : List Entry} {e : Entry} {ρ : Type} {rmapInfos : List ρ}

theorem rmapIndex_eq (hload : Loaded file es db) (he : Belongs es before e)
    (hnames : ∀ e ∈ es, ∀ model, e.rmapInfo = some model → model.name = e.name) :
    rmapIndex db e.name = some (before.filterMap Entry.rmapInfo).length := by
  obtain ⟨after, rfl⟩ := he.split
  obtain ⟨info, hinfo⟩ := Option.isSome_iff_exists.mp he.info
  rw [rmapIndex, hload.rmapInfo, List.findIdx?_map, List.filterMap_append, List.filterMap_cons,
    hinfo, List.findIdx?_append]
  have hnone : (before.filterMap Entry.rmapInfo).findIdx?
      ((fun model : Models => decide (model.name = e.name)) ∘
        fun m => { m with str := bytes file m }) = none := by
    rw [List.findIdx?_eq_none_iff]
    intro model hmodel
    obtain ⟨b, hb, hbinfo⟩ := List.mem_filterMap.mp hmodel
    have hname := hnames b (List.mem_append_left _ hb) model hbinfo
    simpa [hname] using he.first b hb (Option.isSome_iff_exists.mpr ⟨model, hbinfo⟩)
  have hown : info.name = e.name := hnames e (by simp) info hinfo
  rw [hnone]
  simp [List.findIdx?_cons, hown]

theorem ppuAt_eq (hload : Loaded file es db) (before : List Entry) :
    ppuAt db (before.filterMap Entry.rmapInfo).length =
      (placed Entry.binary es before).map fun m => { m with buffer := bytes file m } := by
  rw [ppuAt, if_pos hload.version, hload.ppu, List.getElem?_map, placed]
  cases hplaced : (es.filterMap Entry.binary)[(before.filterMap Entry.rmapInfo).length]? with
  | none => rfl
  | some ppu =>
    obtain ⟨b, -, hb⟩ := List.mem_filterMap.mp (List.mem_of_getElem? hplaced)
    have hsize : 0 < ppu.size := by simpa using Option.mem_filter_iff.mp hb |>.2
    simp [hsize]

theorem element_eq {kind : Entry → Option Models} {models : List Models}
    (h : models = (es.filterMap kind).map fun m => { m with buffer := bytes file m })
    (before : List Entry) :
    element models (before.filterMap Entry.rmapInfo).length =
      match placed kind es before with
      | some m => .ok { m with buffer := bytes file m }
      | none => .error .outOfRange := by
  rw [element, h, List.getElem?_map, placed]
  cases (es.filterMap kind)[(before.filterMap Entry.rmapInfo).length]? <;> rfl

/-- The data vector by the sections at the place of the task. -/
theorem npuData_eq (hload : Loaded file es db)
    (hversion : isSupporterModelVersion db.compilerVersion = .ok true) (before : List Entry) :
    npuData db (before.filterMap Entry.rmapInfo).length =
      match placed Entry.rmap es before, placed Entry.weight es before with
      | none, _ => .error .outOfRange
      | some rmap, weight =>
        if bytes file rmap = [] then .error .invalidModel
        else match weight with
          | none => .error .outOfRange
          | some weight => .ok ([bytes file rmap, bytes file weight] ++
              ((placed Entry.binary es before).map (bytes file)).toList) := by
  rw [npuData, hversion, element_eq hload.rmap, element_eq hload.weight, ppuAt_eq hload]
  cases placed Entry.rmap es before with
  | none => rfl
  | some rmap =>
    by_cases hempty : bytes file rmap = []
    · simp [bind, Except.bind, hempty]
    · cases placed Entry.weight es before with
      | none => simp [bind, Except.bind, hempty]
      | some weight => simp [bind, Except.bind, hempty, Option.map_map, Function.comp_def]

theorem ok_of_bind {ε α β : Type} {x : Except ε α} {f : α → Except ε β} {b : β}
    (h : x >>= f = .ok b) : ∃ a, x = .ok a ∧ f a = .ok b := by
  cases x with
  | error fault => cases h
  | ok a => exact ⟨a, rfl, h⟩

/-- A task has the data and the flag that the loop finds for its name. -/
theorem buildTask_spec {useOrt : Bool} {order : String} {j : ℕ} {task : Option (ModelTask ρ)}
    (hj : rmapIndex db order = some j) (h : buildTask db rmapInfos useOrt order = .ok task) :
    ∃ data, npuData db j = .ok data ∧
      task = some ⟨order, rmapInfos[j]?, data, (ppuAt db j).isSome⟩ := by
  rw [buildTask, hj] at h
  cases hdata : npuData db j with
  | error fault => simp [hdata, bind, Except.bind] at h
  | ok data => exact ⟨data, rfl, by simpa [hdata, bind, Except.bind, eq_comm] using h⟩

theorem name_of_buildTask {useOrt : Bool} {order : String} {task : ModelTask ρ}
    (h : buildTask db rmapInfos useOrt order = .ok (some task)) : task.name = order := by
  cases hj : rmapIndex db order with
  | some j =>
    obtain ⟨data, -, hdata⟩ := buildTask_spec hj h
    rw [Option.some.inj hdata]
  | none =>
    rw [buildTask, hj] at h
    dsimp only at h
    split_ifs at h
    · obtain ⟨model, -, rfl⟩ := Option.map_eq_some_iff.mp (Except.ok.inj h)
      rfl
    · cases Except.ok.inj h

/-- Every task of the loop is built by one of its turns. -/
theorem buildTask_of_buildTasks {useOrt found found' : Bool} {order : List String}
    {tasks : List (ModelTask ρ)}
    (h : buildTasks db rmapInfos useOrt order found = .ok (tasks, found')) :
    ∀ task ∈ tasks, buildTask db rmapInfos useOrt task.name = .ok (some task) := by
  induction order generalizing found tasks found' with
  | nil =>
    obtain ⟨rfl, -⟩ := Prod.mk.inj (Except.ok.inj h)
    intro task htask
    exact absurd htask List.not_mem_nil
  | cons name rest ih =>
    rw [buildTasks] at h
    cases hbuild : buildTask db rmapInfos useOrt name with
    | error fault => simp [hbuild, bind, Except.bind] at h
    | ok built =>
      simp only [hbuild, bind, Except.bind] at h
      cases built with
      | none => exact ih h
      | some first =>
        have hfirst : buildTask db rmapInfos useOrt first.name = .ok (some first) := by
          rw [name_of_buildTask hbuild, hbuild]
        cases useOrt with
        | false =>
          obtain ⟨rfl, -⟩ := Prod.mk.inj (Except.ok.inj h)
          intro task htask
          rwa [List.mem_singleton.mp htask]
        | true =>
          cases hrest : buildTasks db rmapInfos true rest true with
          | error fault => simp [hrest] at h
          | ok p =>
            simp only [hrest, if_true] at h
            obtain ⟨rfl, -⟩ := Prod.mk.inj (Except.ok.inj h)
            intro task htask
            rcases List.mem_cons.mp htask with rfl | htask
            · exact hfirst
            · exact ih hrest task htask

/-- A task order of one name. -/
theorem buildTasksAndSubgraphMap_single (useOrt : Bool) (name : String) :
    buildTasksAndSubgraphMap db rmapInfos useOrt [name] =
      (buildTask db rmapInfos useOrt name).bind fun task =>
        match task with
        | some task => .ok [task]
        | none => .error .invalidModel := by
  rw [buildTasksAndSubgraphMap, taskOrder, if_neg (by simp)]
  simp only [buildTasks, bind, Except.bind]
  cases buildTask db rmapInfos useOrt name with
  | error fault => rfl
  | ok task =>
    cases task with
    | none => rfl
    | some task => cases useOrt <;> rfl

/-- The task gets its own binaries in every task order, and its lists do not end before its place. -/
structure GetsOwn (file : ModelFile) (db : BinaryInfoDatabase) (rmapInfos : List ρ) (e : Entry) :
    Prop where
  found : ∀ useOrt, buildTasksAndSubgraphMap db rmapInfos useOrt [e.name] ≠ .error .outOfRange
  own : ∀ useOrt order tasks, buildTasksAndSubgraphMap db rmapInfos useOrt order = .ok tasks →
    ∀ task ∈ tasks, task.name = e.name →
      task.data = ownData file e ∧ (task.hasPpuBinary = true ↔ e.binary.isSome)

theorem getsOwn_iff {j : ℕ} (hj : rmapIndex db e.name = some j) :
    GetsOwn file db rmapInfos e ↔
      npuData db j ≠ .error .outOfRange ∧ ∀ data, npuData db j = .ok data →
        data = ownData file e ∧ ((ppuAt db j).isSome ↔ e.binary.isSome) := by
  have hsingle : ∀ useOrt, buildTask db rmapInfos useOrt e.name =
      (npuData db j).bind fun data =>
        .ok (some ⟨e.name, rmapInfos[j]?, data, (ppuAt db j).isSome⟩) := by
    intro useOrt
    rw [buildTask, hj]
    rfl
  constructor
  · rintro ⟨hfound, hown⟩
    constructor
    · intro herror
      refine hfound false ?_
      rw [buildTasksAndSubgraphMap_single, hsingle, herror]
      rfl
    · intro data hdata
      refine hown false [e.name] [⟨e.name, rmapInfos[j]?, data, (ppuAt db j).isSome⟩] ?_ _
        List.mem_cons_self rfl
      rw [buildTasksAndSubgraphMap_single, hsingle, hdata]
      rfl
  · rintro ⟨hrange, hown⟩
    constructor
    · intro useOrt herror
      rw [buildTasksAndSubgraphMap_single, hsingle] at herror
      cases hdata : npuData db j with
      | error fault =>
        rw [hdata] at herror
        exact hrange (hdata.trans (by simpa [Except.bind] using herror))
      | ok data =>
        rw [hdata] at herror
        cases herror
    · intro useOrt order tasks h task htask hname
      have hbuild : buildTask db rmapInfos useOrt task.name = .ok (some task) := by
        obtain ⟨names, -, h⟩ := ok_of_bind h
        obtain ⟨⟨built, found⟩, hbuilt, h⟩ := ok_of_bind h
        dsimp only at h
        split_ifs at h
        obtain rfl := Except.ok.inj h
        exact buildTask_of_buildTasks hbuilt task htask
      rw [hname] at hbuild
      obtain ⟨data, hdata, heq⟩ := buildTask_spec hj hbuild
      obtain rfl := Option.some.inj heq
      exact hown data hdata

/-- Two lists that each have a binary of two kinds, and a third one or not. -/
theorem ownData_eq_iff {a b : List UInt8} {p : Option (List UInt8)} {e : Entry}
    (hflag : p.isSome ↔ e.binary.isSome) :
    [a, b] ++ p.toList = ownData file e ↔
      e.rmap.isSome ∧ e.weight.isSome ∧ some a = e.rmap.map (bytes file) ∧
        some b = e.weight.map (bytes file) ∧ p = e.binary.map (bytes file) := by
  rw [ownData]
  cases e.rmap <;> cases e.weight <;> cases hbinary : e.binary <;> cases p <;>
    simp_all

theorem npuData_unsupported (hversion : isSupporterModelVersion db.compilerVersion ≠ .ok true)
    (j : ℕ) : npuData db j = .error .version := by
  rw [npuData]
  cases hsupported : isSupporterModelVersion db.compilerVersion with
  | error fault =>
    rw [isSupporterModelVersion, convertVersion] at hsupported
    split at hsupported
    · cases hsupported
    · obtain rfl := Except.error.inj hsupported
      rfl
  | ok supported =>
    cases supported with
    | false => rfl
    | true => exact absurd hsupported hversion

/-- In every file a task gets its own binaries exactly when its sections are in step, unless no task
    is built at all, since the compiler is not supported or the rmap at the place is empty. -/
theorem own_binaries {useOrtParse : Bool} {es before : List Entry} {e : Entry}
    (hfile : (loadBinaryInfo file useOrtParse .new).result = some db)
    (hes : fileEntries file = some es) (he : Belongs es before e) (rmapInfos : List ρ) :
    GetsOwn file db rmapInfos e ↔
      (isSupporterModelVersion db.compilerVersion = .ok true →
        (placed Entry.rmap es before).map (bytes file) ≠ some [] → InStep file es before e) := by
  obtain ⟨es', hes', hload⟩ := loaded_loadBinaryInfo hfile
  obtain rfl := Option.some.inj (hes.symm.trans hes')
  have hnames : ∀ e ∈ es, ∀ model, e.rmapInfo = some model → model.name = e.name := by
    obtain ⟨members, -, hdata⟩ := Option.bind_eq_some_iff.mp hes
    split at hdata
    · exact name_of_headerEntries file hdata
    · obtain rfl := Option.some.inj hdata
      intro e he
      exact absurd he List.not_mem_nil
  rw [getsOwn_iff (rmapIndex_eq hload he hnames), ppuAt_eq hload]
  by_cases hversion : isSupporterModelVersion db.compilerVersion = .ok true
  · rw [npuData_eq hload hversion]
    have hbinary : ((placed Entry.binary es before).map fun m : Models =>
        { m with buffer := bytes file m }).isSome =
        ((placed Entry.binary es before).map (bytes file)).isSome := by
      cases placed Entry.binary es before <;> rfl
    rw [hbinary]
    cases hrmap : placed Entry.rmap es before with
    | none =>
      -- the list of rmaps ends before the place
      refine iff_of_false (fun h => h.1 rfl) fun h => ?_
      have hstep := (h hversion (by simp)).rmap
      rw [hrmap, Option.map_none, eq_comm, Option.map_eq_none_iff] at hstep
      exact absurd (h hversion (by simp)).hasRmap (by simp [hstep])
    | some rmap =>
      by_cases hempty : bytes file rmap = []
      · simp [hempty]
      cases hweight : placed Entry.weight es before with
      | none =>
        refine iff_of_false (fun h => h.1 (if_neg hempty)) fun h => ?_
        have hstep := h hversion (by simpa using hempty)
        have hnone := hstep.weight
        rw [hweight, Option.map_none, eq_comm, Option.map_eq_none_iff] at hnone
        exact absurd hstep.hasWeight (by simp [hnone])
      | some weight =>
        simp only [if_neg hempty]
        constructor
        · rintro ⟨-, hown⟩ - -
          obtain ⟨hdata, hflag⟩ := hown _ rfl
          obtain ⟨h₁, h₂, h₃, h₄, h₅⟩ := (ownData_eq_iff hflag).mp hdata
          exact ⟨h₁, h₂, by rw [hrmap, ← h₃]; rfl, by rw [hweight, ← h₄]; rfl, h₅⟩
        · intro h
          have hstep := h hversion (by simpa using hempty)
          have hflag : ((placed Entry.binary es before).map (bytes file)).isSome ↔
              e.binary.isSome := by
            rw [hstep.ppu, Option.isSome_map]
          refine ⟨by simp, fun data hdata => ⟨?_, hflag⟩⟩
          rw [← Except.ok.inj hdata]
          refine (ownData_eq_iff hflag).mpr ⟨hstep.hasRmap, hstep.hasWeight, ?_, ?_, hstep.ppu⟩
          · rw [← hstep.rmap, hrmap]
            rfl
          · rw [← hstep.weight, hweight]
            rfl
  · rw [npuData_unsupported hversion]
    refine iff_of_true ⟨by simp, fun data hdata => by cases hdata⟩ fun h => absurd h hversion

/-! ### Files of two models -/

def text (s : String) : List UInt8 := s.toList.map fun c => c.toNat.toUInt8

def configText : List UInt8 := text "\x7b\"compile_version\":\"1.18.1\"\x7d"

/-- A section of the first bytes after the header. -/
def sectionOf (size : ℤ) : Value := .object [("size", .int64 size)]

/-- A version 8 file with one NPU: its header, and the configuration after it. -/
def modelFile (headerText : List UInt8) (models : List (String × Value)) : ModelFile where
  mem i :=
    if i < 8192 then (signature ++ [8, 0, 0, 0] ++ headerText).getD i.toNat 0
    else configText.getD (i - 8192).toNat 0
  parse t :=
    if t = headerText then
      some (.object [("data", .object [("compile_config", sectionOf 28),
        ("compiled_data", .object [("n", .object models)])])])
    else if t = configText then some (.object [("compile_version", .string "1.18.1")])
    else none
  misread _ := none
  allocates n := n ≤ 2 ^ 31

/-- `a` and `b` have a PPU binary each, one after the other. -/
def bothWithPpu : ModelFile :=
  modelFile (text ("\x7b\"data\":\x7b\"compile_config\":\x7b\"size\":28\x7d,\"compiled_data\":\x7b" ++
    "\"n\":\x7b\"a\":\x7b\"rmap\":\x7b\"size\":1\x7d,\"weight\":\x7b\"size\":1\x7d," ++
    "\"rmap_info\":\x7b\"size\":1\x7d,\"ppu\":\x7b\"size\":2\x7d\x7d,\"b\":\x7b\"rmap\":" ++
    "\x7b\"size\":1\x7d,\"weight\":\x7b\"size\":1\x7d,\"rmap_info\":\x7b\"size\":1\x7d," ++
    "\"ppu\":\x7b\"size\":3\x7d\x7d\x7d\x7d\x7d\x7d"))
    [("a", .object [("rmap", sectionOf 1), ("weight", sectionOf 1), ("rmap_info", sectionOf 1),
        ("ppu", sectionOf 2)]),
      ("b", .object [("rmap", sectionOf 1), ("weight", sectionOf 1), ("rmap_info", sectionOf 1),
        ("ppu", sectionOf 3)])]

/-- Only `b` has a PPU binary. -/
def twoModels : ModelFile :=
  modelFile (text ("\x7b\"data\":\x7b\"compile_config\":\x7b\"size\":28\x7d,\"compiled_data\":\x7b" ++
    "\"n\":\x7b\"a\":\x7b\"rmap\":\x7b\"size\":1\x7d,\"weight\":\x7b\"size\":1\x7d," ++
    "\"rmap_info\":\x7b\"size\":1\x7d\x7d,\"b\":\x7b\"rmap\":\x7b\"size\":1\x7d,\"w" ++
    "eight\":\x7b\"size\":1\x7d,\"rmap_info\":\x7b\"size\":1\x7d,\"ppu\":\x7b\"size" ++
    "\":1\x7d\x7d\x7d\x7d\x7d\x7d"))
    [("a", .object [("rmap", sectionOf 1), ("weight", sectionOf 1), ("rmap_info", sectionOf 1)]),
      ("b", .object [("rmap", sectionOf 1), ("weight", sectionOf 1), ("rmap_info", sectionOf 1),
        ("ppu", sectionOf 1)])]

def modelSection (name : String) : Option Models := some ⟨"n", name, [], [], 0, 1⟩

def entryOf (name : String) (ppu : Option Models) : Entry :=
  ⟨name, modelSection name, modelSection name, modelSection name, none, ppu⟩

/-- The PPU binary of the model `name`, of `size` bytes. -/
def ppuSection (name : String) (size : ℤ) : Option Models := some ⟨"n", name, [], [], 0, size⟩

/-- The second of two models: its sections are the second ones of every list. -/
theorem own_binaries_in_step : ∃ db, (loadBinaryInfo bothWithPpu false .new).result = some db ∧
    GetsOwn bothWithPpu db ([] : List Unit) (entryOf "b" (ppuSection "b" 3)) := by
  have hrun : (loadBinaryInfo bothWithPpu false .new).result.isSome = true ∧
      fileEntries bothWithPpu =
        some [entryOf "a" (ppuSection "a" 2), entryOf "b" (ppuSection "b" 3)] := by decide +kernel
  obtain ⟨hload, hes⟩ := hrun
  obtain ⟨db, hdb⟩ := Option.isSome_iff_exists.mp hload
  have hbelongs : Belongs [entryOf "a" (ppuSection "a" 2), entryOf "b" (ppuSection "b" 3)]
      [entryOf "a" (ppuSection "a" 2)] (entryOf "b" (ppuSection "b" 3)) :=
    ⟨⟨[], rfl⟩, rfl, by decide +kernel⟩
  have hown := own_binaries hdb hes hbelongs ([] : List Unit)
  exact ⟨db, hdb, hown.mpr fun _ _ => ⟨rfl, rfl, rfl, rfl, rfl⟩⟩

/-- Without a PPU binary of its own, the first model gets the one of the second, which gets none. -/
theorem own_binaries_shifted :
    ¬∀ (file : ModelFile) (db : BinaryInfoDatabase) (es before : List Entry) (e : Entry),
      (loadBinaryInfo file false .new).result = some db → fileEntries file = some es →
        Belongs es before e → GetsOwn file db ([] : List Unit) e := by
  intro h
  have hrun : fileEntries twoModels =
        some [entryOf "a" none, entryOf "b" (modelSection "b")] ∧
      ((loadBinaryInfo twoModels false .new).result.bind fun db =>
        (buildTasksAndSubgraphMap db ([] : List Unit) true ["a", "b"]).toOption).map
          (List.map fun task => (task.name, task.hasPpuBinary)) =
        some [("a", true), ("b", false)] := by decide +kernel
  obtain ⟨hes, hbuild⟩ := hrun
  obtain ⟨tasks, hload, htasks⟩ := Option.map_eq_some_iff.mp hbuild
  obtain ⟨db, hdb, hok⟩ := Option.bind_eq_some_iff.mp hload
  have hmem : ("a", true) ∈ tasks.map fun task => (task.name, task.hasPpuBinary) := by
    rw [htasks]
    exact List.mem_cons_self
  obtain ⟨task, htask, heq⟩ := List.mem_map.mp hmem
  obtain ⟨hname, hflag⟩ := Prod.mk.inj heq
  have hown := (h twoModels db _ [] (entryOf "a" none) hdb hes ⟨⟨_, rfl⟩, rfl, by simp⟩).own
    true ["a", "b"] tasks
  cases hbuilt : buildTasksAndSubgraphMap db ([] : List Unit) true ["a", "b"] with
  | error fault => simp [hbuilt, Except.toOption] at hok
  | ok built =>
    rw [hbuilt] at hok
    obtain rfl := Option.some.inj hok
    exact absurd ((hown hbuilt task htask hname).2.mp hflag) (by decide)

end InferenceEngine
end DxRt
