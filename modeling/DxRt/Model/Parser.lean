import DxRt.Lib.Reads

/-! lib/parsers/v8_model_parser.cpp: the binaries of a version 8 model file.

    The file starts with a signature, a version and a header of 8192 bytes in JSON, which names the
    offset and the size of every section. `loadBinaryInfo` collects the sections of the header in one
    list for each kind and then copies them out of the buffer. What the JSON library makes of a text
    is a parameter, and so is which sizes can be allocated; an exception ends the load. The library's
    assertions are compiled out of the default build: a text with an error is the document null, and
    null has no members. -/

namespace DxRt

/-- A JSON value as the parser looks at it; `int64` is a number with `IsInt64`. -/
inductive Value where
  | object (members : List (String × Value))
  | string (text : String)
  | int64 (i : ℤ)
  | null
  | other

/-- The first member of that name. -/
def getMember (members : List (String × Value)) (name : String) : Option Value :=
  (members.find? fun m => decide (m.1 = name)).map Prod.snd

structure Models where
  npu : String
  name : String
  str : List UInt8
  buffer : List UInt8
  offset : ℤ
  size : ℤ
  deriving DecidableEq

def Models.new : Models := ⟨"", "", [], [], 0, 0⟩

structure BinaryInfoDatabase where
  cpuModels : List Models
  graphInfo : Models
  rmap : List Models
  weight : List Models
  rmapInfo : List Models
  bitmatchMask : List Models
  ppu : List Models
  dxnnFileFormatVersion : ℤ
  compilerVersion : String
  ppuType : ℤ

def BinaryInfoDatabase.new : BinaryInfoDatabase := ⟨[], .new, [], [], [], [], [], 0, "", -1⟩

/-- The bytes around the buffer, the file being those from 0 on; the JSON library, which gives
    nothing for a text with an error; and the sizes for which there is memory. `misread` is what the
    library finds when it looks for members in a value that is neither an object nor null: it takes
    the contents for a list of members, and where it gives nothing the process ends. -/
structure ModelFile where
  mem : ℤ → UInt8
  parse : List UInt8 → Option Value
  misread : Value → Option (List (String × Value))
  allocates : ℤ → Bool

/-- What `MemberBegin` and `HasMember` go through. -/
def ModelFile.members (file : ModelFile) : Value → Option (List (String × Value))
  | .object members => some members
  | .null => some []
  | value => file.misread value

namespace V8ModelParser

/-! ### The header -/

def isSpace (c : Char) : Bool := c = ' ' ∨ 9 ≤ c.toNat ∧ c.toNat ≤ 13

/-- `std::stoll` and `std::stoi`, for integers of less than `bound`. -/
def stoInt (bound : ℤ) (text : List Char) : Option ℤ :=
  let body := text.dropWhile isSpace
  let negative := decide (body.head? = some '-')
  let digits := (if negative ∨ body.head? = some '+' then body.tail else body).takeWhile Char.isDigit
  let magnitude : ℤ := digits.foldl (fun n c => 10 * n + (c.toNat - 48 : ℕ)) 0
  let value := if negative then -magnitude else magnitude
  if digits = [] ∨ value < -bound ∨ bound ≤ value then none else some value

def stoll (text : String) : Option ℤ := stoInt (2 ^ 63) text.toList

def parseInt64FromValue : Value → Option ℤ
  | .int64 i => some i
  | .string text => stoll text
  | _ => some 0

/-- The number of a member, if there is one. -/
def int64Member (members : List (String × Value)) (name : String) (default : ℤ) : Option ℤ :=
  match getMember members name with
  | some value => parseInt64FromValue value
  | none => some default

def parseModelsOffsetSize (members : List (String × Value)) (model : Models) : Option Models := do
  let offset ← int64Member members "offset" model.offset
  let size ← int64Member members "size" model.size
  pure { model with offset := offset, size := size }

/-- The section of that name, if it is an object. -/
def optionalSection (members : List (String × Value)) (name : String) (model : Models) :
    Option (Option Models) :=
  match getMember members name with
  | some (.object fields) => (parseModelsOffsetSize fields model).map some
  | _ => some none

variable (file : ModelFile)

/-- One turn of the loop of `parseCompiledDataForNpu`. -/
def parseCompiledModel (npuName : String) (param : BinaryInfoDatabase) (entry : String × Value) :
    Option BinaryInfoDatabase := do
  let members ← file.members entry.2
  let model : Models := { Models.new with npu := npuName, name := entry.1 }
  let rmap ← optionalSection members "rmap" model
  let weight ← optionalSection members "weight" model
  let rmapInfo ← optionalSection members "rmap_info" model
  let bitmatch ← optionalSection members "bitmatch" model
  let ppu ← optionalSection members "ppu" model
  pure { param with
    rmap := param.rmap ++ rmap.toList
    weight := param.weight ++ weight.toList
    rmapInfo := param.rmapInfo ++ rmapInfo.toList
    bitmatchMask := param.bitmatchMask ++ bitmatch.toList
    ppu := param.ppu ++ (ppu.filter fun ppu => 0 < ppu.size).toList }

def parseCompiledDataForNpu (param : BinaryInfoDatabase) (npu : String × Value) :
    Option BinaryInfoDatabase := do
  let members ← file.members npu.2
  members.foldlM (parseCompiledModel file npu.1) param

/-- The field `compiled_data`. -/
def parseCompiledData (dataObj : List (String × Value)) (param : BinaryInfoDatabase) :
    Option BinaryInfoDatabase :=
  match getMember dataObj "compiled_data" with
  | some (.object npus) => npus.foldlM (parseCompiledDataForNpu file) param
  | _ => some param

/-- The field `cpu_models`, which is read in a build with ONNX Runtime. -/
def parseCpuModels (useOrt : Bool) (dataObj : List (String × Value)) (param : BinaryInfoDatabase) :
    Option BinaryInfoDatabase :=
  match useOrt, getMember dataObj "cpu_models" with
  | true, some (.object models) => models.foldlM (fun param entry => do
      let members ← file.members entry.2
      let model ← parseModelsOffsetSize members { Models.new with name := entry.1 }
      pure { param with cpuModels := param.cpuModels ++ [model] }) param
  | _, _ => some param

/-- The field `graph_info`. -/
def parseGraphInfo (dataObj : List (String × Value)) (param : BinaryInfoDatabase) :
    Option BinaryInfoDatabase :=
  match getMember dataObj "graph_info" with
  | some (.object fields) => (parseModelsOffsetSize fields param.graphInfo).map fun model =>
      { param with graphInfo := model }
  | _ => some param

/-- Where the field `compile_config` says that the configuration is. -/
def compileConfigSection (dataObj : List (String × Value)) : Option (Option Models) :=
  optionalSection dataObj "compile_config" .new

def readCompileVersion (config : List (String × Value)) (param : BinaryInfoDatabase) :
    BinaryInfoDatabase :=
  match getMember config "compile_version" with
  | some (.string version) => { param with compilerVersion := version }
  | _ => param

def readPpuType (config : List (String × Value)) (param : BinaryInfoDatabase) :
    BinaryInfoDatabase :=
  match getMember config "ppu" with
  | some (.object ppu) =>
    match getMember ppu "type" with
    | some (.int64 type) =>
      if -2 ^ 31 ≤ type ∧ type < 2 ^ 31 then { param with ppuType := type } else param
    | _ => param
  | _ => param

/-! ### The buffer -/

/-- The text of a string up to its end mark. -/
def cStr (text : List UInt8) : List UInt8 := text.takeWhile (· ≠ 0)

/-- A section of the file as bytes: `offset` is the end of the header. -/
def readSection (model : Models) : Reads (List UInt8) :=
  .copy file.mem file.allocates (8192 + model.offset) model.size

/-- `copyBinaryDataToModels`, for one model. -/
def copyBinaryData (model : Models) : Reads Models := do
  let buffer ← readSection file model
  pure { model with buffer := buffer }

/-- `copyStringDataToModels`, for one model. -/
def copyStringData (model : Models) : Reads Models := do
  let str ← readSection file model
  pure { model with str := str }

/-- Whether the text has an error is not asked. -/
def parseCompileConfig (dataObj : List (String × Value)) (param : BinaryInfoDatabase) :
    Reads BinaryInfoDatabase := do
  match ← .lift (compileConfigSection dataObj) with
  | none => pure param
  | some model =>
    let str ← readSection file model
    let members ← .lift (file.members ((file.parse (cStr str)).getD .null))
    pure (readPpuType members (readCompileVersion members param))

def parseDataSection (useOrt : Bool) (dataObj : List (String × Value))
    (param : BinaryInfoDatabase) : Reads BinaryInfoDatabase := do
  let param ← .lift (parseCpuModels file useOrt dataObj param)
  let param ← parseCompileConfig file dataObj param
  let param ← .lift (parseGraphInfo dataObj param)
  .lift (parseCompiledData file dataObj param)

/-- The sections of all lists, in the order of the statements of `loadBinaryInfo`. -/
def copySections (param : BinaryInfoDatabase) : Reads BinaryInfoDatabase := do
  let cpuModels ← Reads.each (copyBinaryData file) param.cpuModels
  let graphInfo ← copyStringData file param.graphInfo
  let rmap ← Reads.each (copyBinaryData file) param.rmap
  let weight ← Reads.each (copyBinaryData file) param.weight
  let rmapInfo ← Reads.each (copyStringData file) param.rmapInfo
  let bitmatchMask ← Reads.each (copyBinaryData file) param.bitmatchMask
  let ppu ← Reads.each (copyBinaryData file) param.ppu
  pure { param with
    cpuModels := cpuModels, graphInfo := graphInfo, rmap := rmap, weight := weight
    rmapInfo := rmapInfo, bitmatchMask := bitmatchMask, ppu := ppu }

/-- A `char` of the file, extended with its sign. -/
def charAt (i : ℤ) : BitVec 32 := (file.mem i).toBitVec.signExtend 32

/-- The version as the four bytes of an integer. -/
def formatVersion : ℤ :=
  (charAt file 4 ||| charAt file 5 <<< 8 ||| charAt file 6 <<< 16 ||| charAt file 7 <<< 24).toInt

/-- The signature `DXNN`. -/
def signature : List UInt8 := [68, 88, 78, 78]

/-- What the header holds. -/
def header : Option (List (String × Value)) :=
  (file.parse (cStr (Reads.block file.mem 8 (8192 - 8)))).bind file.members

/-- `loadBinaryInfo` once the version is known. -/
def loadHeader (useOrt : Bool) (param : BinaryInfoDatabase) : Reads BinaryInfoDatabase := do
  let headerInfo ← .copy file.mem file.allocates 8 (8192 - 8)
  let document ← .lift (file.parse (cStr headerInfo))
  let members ← .lift (file.members document)
  let param ← match getMember members "data" with
    | some (.object dataObj) => parseDataSection file useOrt dataObj param
    | _ => pure param
  copySections file param

def loadBinaryInfo (useOrt : Bool) (param : BinaryInfoDatabase) : Reads BinaryInfoDatabase := do
  let signInfo ← .range 0 4 (Reads.block file.mem 0 4)
  if signInfo ≠ signature then .throw
  else
    let version ← .range 4 4 (formatVersion file)
    if version < 6 ∨ 8 < version then .throw
    else if version ≠ 8 then .throw
    else loadHeader file useOrt { param with dxnnFileFormatVersion := version }

end V8ModelParser
end DxRt
