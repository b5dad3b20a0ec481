import DxRt.Model.Parser

/-! Which bytes `loadBinaryInfo` reads.

    The size of the file is not looked at, so whether the reads stay inside it depends on the file:
    it has to be as long as what is read of it without a question, and every section that the header
    names, up to the first that cannot be loaded, has to lie inside it. -/

namespace DxRt.V8ModelParser

variable (file : ModelFile) {size : ℤ}

/-- The section lies inside the file, or nothing of it is read. -/
def Fits (size : ℤ) (model : Models) : Prop :=
  model.size ≤ 0 ∨ file.allocates model.size = false ∨
    0 ≤ 8192 + model.offset ∧ 8192 + model.offset + model.size ≤ size

/-- There is no exception on account of the size of the section. -/
def Loads (model : Models) : Prop := 0 ≤ model.size ∧ file.allocates model.size = true

/-- The sections of all lists in the order in which they are copied. -/
def sections (param : BinaryInfoDatabase) : List Models :=
  param.cpuModels ++ ([param.graphInfo] ++ (param.rmap ++ (param.weight ++ (param.rmapInfo ++
    (param.bitmatchMask ++ param.ppu)))))

/-- The sections that are reached fit into the file. -/
def Reached (size : ℤ) (param : BinaryInfoDatabase) : Prop :=
  Reads.Fitting (Fits file size) (Loads file) (sections param)

/-! ### One section -/

theorem inside_readSection (model : Models) :
    (readSection file model).Inside size ↔ Fits file size model :=
  Reads.inside_copy ..

theorem result_readSection (model : Models) :
    (readSection file model).result.isSome ↔ Loads file model := by
  rw [readSection, Reads.result_copy, Loads]
  split_ifs with h
  · simp only [Option.isSome_none, Bool.false_eq_true, false_iff, not_and, Bool.not_eq_true]
    exact fun hsize => h.resolve_left (not_lt.mpr hsize)
  · push Not at h
    simpa using h

theorem inside_copyBinaryData (model : Models) :
    (copyBinaryData file model).Inside size ↔ Fits file size model := by
  rw [copyBinaryData, Reads.inside_bind, inside_readSection]
  simp

theorem result_copyBinaryData (model : Models) :
    (copyBinaryData file model).result.isSome ↔ Loads file model := by
  rw [copyBinaryData, Reads.result_bind, ← result_readSection]
  cases (readSection file model).result <;> simp

theorem inside_copyStringData (model : Models) :
    (copyStringData file model).Inside size ↔ Fits file size model := by
  rw [copyStringData, Reads.inside_bind, inside_readSection]
  simp

theorem result_copyStringData (model : Models) :
    (copyStringData file model).result.isSome ↔ Loads file model := by
  rw [copyStringData, Reads.result_bind, ← result_readSection]
  cases (readSection file model).result <;> simp

/-! ### All sections -/

theorem forall_result_iff {α : Type} {x : Reads α} {p q : Prop} (hp : x.result.isSome ↔ p) :
    (∀ a, x.result = some a → q) ↔ (p → q) := by
  rw [← hp, Option.isSome_iff_exists, forall_exists_index]

theorem inside_each_copyBinaryData (l : List Models) :
    (Reads.each (copyBinaryData file) l).Inside size ↔
      Reads.Fitting (Fits file size) (Loads file) l :=
  Reads.inside_each (inside_copyBinaryData file) (result_copyBinaryData file) l

theorem result_each_copyBinaryData (l : List Models) :
    (Reads.each (copyBinaryData file) l).result.isSome ↔ ∀ a ∈ l, Loads file a :=
  Reads.isSome_each (result_copyBinaryData file) l

/-- The lists are copied one after another, like the elements of each. -/
theorem inside_copySections (param : BinaryInfoDatabase) :
    (copySections file param).Inside size ↔ Reached file size param := by
  have hfits (model : Models) : (copyStringData file model).Inside size ↔ Fits file size model :=
    inside_copyStringData file model
  have hstring := Reads.inside_each hfits (result_copyStringData file) param.rmapInfo
  have hloaded := Reads.isSome_each (result_copyStringData file) param.rmapInfo
  simp only [copySections, Reads.inside_bind, Reads.inside_pure, implies_true, and_true,
    inside_each_copyBinaryData, inside_copyStringData, hstring,
    forall_result_iff (result_each_copyBinaryData file _), forall_result_iff hloaded,
    forall_result_iff (result_copyStringData file _), Reached, sections, Reads.fitting_append,
    Reads.Fitting, List.forall_mem_singleton]

/-- The configuration is read first, and then the sections of the header that has been parsed. -/
structure SectionsFit (size : ℤ) (useOrt : Bool) (dataObj : List (String × Value))
    (param : BinaryInfoDatabase) : Prop where
  config : ∀ parsed model, parseCpuModels file useOrt dataObj param = some parsed →
    compileConfigSection dataObj = some (some model) → Fits file size model
  lists : ∀ parsed, (parseDataSection file useOrt dataObj param).result = some parsed →
    Reached file size parsed

theorem inside_parseCompileConfig (dataObj : List (String × Value)) (param : BinaryInfoDatabase) :
    (parseCompileConfig file dataObj param).Inside size ↔
      ∀ model, compileConfigSection dataObj = some (some model) → Fits file size model := by
  rw [parseCompileConfig, Reads.inside_bind]
  simp only [Reads.inside_lift, true_and, Reads.result_lift]
  constructor
  · intro h model hmodel
    have hread := h _ hmodel
    rw [Reads.inside_bind] at hread
    exact (inside_readSection file model).mp hread.1
  · intro h found hfound
    cases found with
    | none => exact Reads.inside_pure _
    | some model =>
      simp only [Reads.inside_bind, Reads.inside_lift, Reads.inside_pure, implies_true, and_true]
      exact (inside_readSection file model).mpr (h model hfound)

theorem inside_parseDataSection (useOrt : Bool) (dataObj : List (String × Value))
    (param : BinaryInfoDatabase) :
    (parseDataSection file useOrt dataObj param).Inside size ↔
      ∀ parsed model, parseCpuModels file useOrt dataObj param = some parsed →
        compileConfigSection dataObj = some (some model) → Fits file size model := by
  rw [parseDataSection, Reads.inside_bind]
  simp only [Reads.inside_lift, true_and, Reads.result_lift, Reads.inside_bind, implies_true,
    and_true, inside_parseCompileConfig]
  exact ⟨fun h parsed model hparsed => h parsed hparsed model,
    fun h parsed hparsed model => h parsed model hparsed⟩

/-! ### The whole file -/

/-- What the parser reads without a question is there, and what the header names, too. -/
structure Covered (size : ℤ) (useOrt : Bool) (param : BinaryInfoDatabase) : Prop where
  signature : 4 ≤ size
  version : Reads.block file.mem 0 4 = V8ModelParser.signature → 8 ≤ size
  header : Reads.block file.mem 0 4 = V8ModelParser.signature → formatVersion file = 8 →
    file.allocates (8192 - 8) = true → 8192 ≤ size
  sections : Reads.block file.mem 0 4 = V8ModelParser.signature → formatVersion file = 8 →
    file.allocates (8192 - 8) = true → ∀ members, V8ModelParser.header file = some members →
      match getMember members "data" with
      | some (.object dataObj) =>
        SectionsFit file size useOrt dataObj { param with dxnnFileFormatVersion := 8 }
      | _ => Reached file size { param with dxnnFileFormatVersion := 8 }

theorem inside_sectionsFit (useOrt : Bool) (dataObj : List (String × Value))
    (param : BinaryInfoDatabase) :
    (parseDataSection file useOrt dataObj param >>= copySections file).Inside size ↔
      SectionsFit file size useOrt dataObj param := by
  rw [Reads.inside_bind, inside_parseDataSection]
  simp only [inside_copySections]
  exact ⟨fun h => ⟨h.1, h.2⟩, fun h => ⟨h.1, h.2⟩⟩

theorem inside_loadHeader (useOrt : Bool) (param : BinaryInfoDatabase) :
    (loadHeader file useOrt param).Inside size ↔
      (file.allocates (8192 - 8) = true → 8192 ≤ size) ∧
        (file.allocates (8192 - 8) = true → ∀ members, header file = some members →
          match getMember members "data" with
          | some (.object dataObj) => SectionsFit file size useOrt dataObj param
          | _ => Reached file size param) := by
  rw [loadHeader, Reads.inside_bind, Reads.inside_copy, Reads.result_copy]
  cases halloc : file.allocates (8192 - 8) with
  | false => simp
  | true =>
    have hdata : ∀ members : List (String × Value),
        (match getMember members "data" with
          | some (.object dataObj) =>
            parseDataSection file useOrt dataObj param >>= copySections file
          | _ => pure param >>= copySections file : Reads BinaryInfoDatabase).Inside size ↔
        match getMember members "data" with
          | some (.object dataObj) => SectionsFit file size useOrt dataObj param
          | _ => Reached file size param := by
      intro members
      have hpure : (pure param >>= copySections file).Inside size ↔ Reached file size param := by
        simp [Reads.inside_bind, inside_copySections]
      cases getMember members "data" with
      | none => exact hpure
      | some value =>
        cases value with
        | object dataObj => exact inside_sectionsFit file useOrt dataObj param
        | _ => exact hpure
    simp only [Reads.inside_bind, Reads.inside_lift, Reads.result_lift, true_and, header,
      Option.bind_eq_some_iff, forall_exists_index, and_imp, forall_const]
    norm_num
    intro hsize
    constructor
    · intro h members document hparse hmembers
      exact (hdata members).mp (h document hparse members hmembers)
    · intro h document hparse members hmembers
      exact (hdata members).mpr (h members document hparse hmembers)

/-- The parser reads inside the file exactly when what it reads without a question is there, and
    every section that the header names, as far as they are reached, lies in the file. -/
theorem model_reads_inside (useOrt : Bool) (param : BinaryInfoDatabase) (fileSize : ℕ) :
    (loadBinaryInfo file useOrt param).Inside fileSize ↔ Covered file fileSize useOrt param := by
  rw [loadBinaryInfo, Reads.inside_bind, Reads.inside_range]
  simp only [Reads.result_range, Option.some.injEq, forall_eq']
  by_cases hsign : Reads.block file.mem 0 4 = signature
  · rw [if_neg (not_not.mpr hsign), Reads.inside_bind, Reads.inside_range]
    simp only [Reads.result_range, Option.some.injEq, forall_eq']
    by_cases hversion : formatVersion file = 8
    · rw [hversion, if_neg (by omega), if_neg (not_not.mpr rfl), inside_loadHeader]
      constructor
      · rintro ⟨⟨-, h4⟩, ⟨-, h8⟩, hheader, hsections⟩
        exact ⟨h4, fun _ => h8, fun _ _ => hheader, fun _ _ => hsections⟩
      · intro h
        exact ⟨⟨le_rfl, h.signature⟩, ⟨by omega, h.version hsign⟩, h.header hsign hversion,
          h.sections hsign hversion⟩
    · rw [if_pos hversion, ite_self]
      constructor
      · rintro ⟨⟨-, h4⟩, ⟨-, h8⟩, -⟩
        exact ⟨h4, fun _ => h8, fun _ h => absurd h hversion, fun _ h => absurd h hversion⟩
      · intro h
        exact ⟨⟨le_rfl, h.signature⟩, ⟨by omega, h.version hsign⟩, Reads.inside_throw⟩
  · rw [if_pos hsign]
    constructor
    · rintro ⟨⟨-, h4⟩, -⟩
      exact ⟨h4, fun h => absurd h hsign, fun h => absurd h hsign, fun h => absurd h hsign⟩
    · intro h
      exact ⟨⟨le_rfl, h.signature⟩, Reads.inside_throw⟩

/-! ### A header that names a byte after the end -/

/-- A graph of one byte. -/
def graphText : List UInt8 :=
  "\x7b\"data\":\x7b\"graph_info\":\x7b\"size\":1\x7d\x7d\x7d".toList.map fun c => c.toNat.toUInt8

/-- The signature, the version, a header with the graph, and nothing after the header. -/
def headerOnly : ModelFile where
  mem i := (signature ++ [8, 0, 0, 0] ++ graphText).getD i.toNat 0
  parse text :=
    if text = graphText then
      some (.object [("data", .object [("graph_info", .object [("size", .int64 1)])])])
    else none
  misread _ := none
  allocates n := n ≤ 2 ^ 31

/-- The file is its header, and is loaded, with a byte that is not in it. -/
theorem model_reads_outside :
    ¬∀ (file : ModelFile) (useOrt : Bool) (fileSize : ℕ),
      (loadBinaryInfo file useOrt .new).result = none ∨
        (loadBinaryInfo file useOrt .new).Inside fileSize := by
  intro h
  have hload : (loadBinaryInfo headerOnly false .new).result.isSome = true ∧
      (8192, 1) ∈ (loadBinaryInfo headerOnly false .new).ranges := by decide +kernel
  rcases h headerOnly false 8192 with hthrow | hinside
  · simp [hthrow] at hload
  · have := hinside _ hload.2
    omega

end DxRt.V8ModelParser
