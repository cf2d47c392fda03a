import Gameos.DwarfForms

namespace Dwarf
open MachineWords ByteReader

def dwarfVersion : Nat := 5

inductive LineContentType where
  | path
  | directoryIndex
  | other (value : Nat)
deriving DecidableEq, Repr

def castLineContentType : Nat → LineContentType
  | 1 => .path
  | 2 => .directoryIndex
  | value => .other value

structure EntryFormat where
  type : LineContentType
  form : Form
deriving DecidableEq, Repr

def readEntryFormats : Nat → ByteReader → Except Failure (List EntryFormat × ByteReader)
  | 0, reader => return ([],reader)
  | count+1, reader => do
      let (type,reader) ← asserted "line_content_type_ok" reader.readUleb128
      let (form,reader) ← asserted "form_ok" reader.readUleb128
      let (formats,reader) ← readEntryFormats count reader
      return (⟨castLineContentType type,castForm form⟩ :: formats,reader)

def parseEntryFormats (debugLine : ByteReader) : Except Failure (List EntryFormat × ByteReader) := do
  let (count,debugLine) ← asserted "entry_format_count_ok" debugLine.readU8
  readEntryFormats count.toNat debugLine

-- What one entry gave so far: its path and its directory index.
structure PathEntry where
  path : Option (List UInt8)
  directoryIndex : Option Nat
deriving DecidableEq, Repr

def readEntryFields (addressSize : Nat) (sections : Sections) :
    List EntryFormat → PathEntry → ByteReader → Except Failure (PathEntry × ByteReader)
  | [], entry, reader => return (entry,reader)
  | format :: formats, entry, reader => do
      let (value,reader) ← readAttributeValue addressSize 0 sections (reader.source.length+1) format.form reader
      match format.type, value with
      | .path, .string text =>
          if entry.path.isSome then throw (.asserted "!has_path")
          readEntryFields addressSize sections formats {entry with path := some text} reader
      | .path, _ =>
          throw (.asserted (if entry.path.isSome then "!has_path" else "value.kind == Attribute_Value_Kind::STRING"))
      | .directoryIndex, .unsigned index =>
          if 0xffffffff < index then throw (.asserted "value.v_unsigned <= 0xffffffff")
          readEntryFields addressSize sections formats {entry with directoryIndex := some index} reader
      | .directoryIndex, _ => throw (.asserted "value.kind == Attribute_Value_Kind::UNSIGNED")
      | .other _, _ => readEntryFields addressSize sections formats entry reader

-- Paths_And_Indices; an entry without an index adds none.
def readEntries (addressSize : Nat) (sections : Sections) (formats : List EntryFormat) :
    Nat → ByteReader → Except Failure (List (List UInt8) × List Nat × ByteReader)
  | 0, reader => return ([],[],reader)
  | count+1, reader => do
      let (entry,reader) ← readEntryFields addressSize sections formats ⟨none,none⟩ reader
      match entry.path with
      | none => throw (.asserted "has_path")
      | some path =>
          let (paths,indices,reader) ← readEntries addressSize sections formats count reader
          return (path :: paths,entry.directoryIndex.toList ++ indices,reader)

def parseDirectoriesOrFileNames (debugLine : ByteReader) (addressSize : Nat) (formats : List EntryFormat)
    (sections : Sections) : Except Failure (List (List UInt8) × List Nat × ByteReader) := do
  let (count,debugLine) ← asserted "count_ok" debugLine.readUleb128
  readEntries addressSize sections formats count debugLine

def pathSeparator : UInt8 := 0x2f

-- path::join
def join (part1 part2 : List UInt8) : List UInt8 :=
  if part2.isEmpty then part1
  else if part1.isEmpty then part2
  else if part2.head? = some pathSeparator then part2
  else if part1.getLast? = some pathSeparator then part1 ++ part2
  else part1 ++ pathSeparator :: part2

def element (list : List α) (index : Nat) : Except Failure α :=
  match list[index]? with
  | some value => .ok value
  | none => .error (.asserted "index out of bounds")

def joinDirectories (directories : List (List UInt8)) : List (List UInt8) → List Nat →
    Except Failure (List (List UInt8))
  | [], _ => return []
  | _ :: _, [] => throw (.asserted "index out of bounds")
  | fileName :: fileNames, index :: indices => do
      let joined ← if fileName.isEmpty ∨ fileName.head? = some pathSeparator then pure fileName
        else do
          let directory ← element directories index
          pure (join directory fileName)
      let rest ← joinDirectories directories fileNames indices
      return joined :: rest

structure Tables where
  directoryEntryFormats : List EntryFormat
  directories : List (List UInt8)
  fileNameEntryFormats : List EntryFormat
  fileNames : List (List UInt8)
deriving DecidableEq, Repr

-- The part of parse_debug_line_header behind standard_opcode_lengths.
def parseTables (debugLine : ByteReader) (addressSize : Nat) (sections : Sections) :
    Except Failure (Tables × ByteReader) := do
  let (directoryEntryFormats,debugLine) ← parseEntryFormats debugLine
  let (directories,_,debugLine) ← parseDirectoriesOrFileNames debugLine addressSize directoryEntryFormats sections
  let (fileNameEntryFormats,debugLine) ← parseEntryFormats debugLine
  let (fileNames,fileDirectoryIndices,debugLine) ←
    parseDirectoriesOrFileNames debugLine addressSize fileNameEntryFormats sections
  let fileNames ← joinDirectories directories fileNames fileDirectoryIndices
  return (⟨directoryEntryFormats,directories,fileNameEntryFormats,fileNames⟩,debugLine)

structure DebugLineHeader where
  unitLength : Nat
  version : Nat
  addressSize : Nat
  segmentSelectorSize : Nat
  headerLength : Nat
  minimumInstructionLength : Nat
  maximumOperationsPerInstruction : Nat
  defaultValueOfIsStmtRegister : Bool
  lineBase : Int
  lineRange : Nat
  opcodeBase : Nat
  standardOpcodeLengths : View
  tables : Tables
deriving DecidableEq, Repr

def parseDebugLineHeader (debugLine : ByteReader) (sections : Sections) :
    Except Failure (DebugLineHeader × ByteReader) := do
  let (unitLength,debugLine) ← asserted "unit_length_ok" debugLine.readU32
  let (version,debugLine) ← asserted "version_ok" debugLine.readU16
  if version ≠ dwarfVersion then throw (.asserted "version == DWARF_VERSION")
  let (addressSize,debugLine) ← asserted "address_size_ok" debugLine.readU8
  let (segmentSelectorSize,debugLine) ← asserted "segment_selector_size_ok" debugLine.readU8
  let (headerLength,debugLine) ← asserted "header_length_ok" debugLine.readU32
  let (minimumInstructionLength,debugLine) ← asserted "minimum_instruction_length_ok" debugLine.readU8
  let (maximumOperationsPerInstruction,debugLine) ←
    asserted "maximum_operations_per_instruction_ok" debugLine.readU8
  let (defaultValueOfIsStmtRegister,debugLine) ← asserted "default_value_of_is_stmt_register_ok" debugLine.readBool
  let (lineBase,debugLine) ← asserted "line_base_ok" debugLine.readS8
  let (lineRange,debugLine) ← asserted "line_range_ok" debugLine.readU8
  let (opcodeBase,debugLine) ← asserted "opcode_base_ok" debugLine.readU8
  let (standardOpcodeLengths,debugLine) ← asserted "standard_opcode_lengths_ok"
    (.ok (debugLine.readBytes ((opcodeBase.toNat : Int) - 1)))
  let (tables,debugLine) ← parseTables debugLine addressSize.toNat sections
  return ({
    unitLength := unitLength
    version := version
    addressSize := addressSize.toNat
    segmentSelectorSize := segmentSelectorSize.toNat
    headerLength := headerLength
    minimumInstructionLength := minimumInstructionLength.toNat
    maximumOperationsPerInstruction := maximumOperationsPerInstruction.toNat
    defaultValueOfIsStmtRegister := defaultValueOfIsStmtRegister
    lineBase := lineBase
    lineRange := lineRange.toNat
    opcodeBase := opcodeBase.toNat
    standardOpcodeLengths := standardOpcodeLengths
    tables := tables},debugLine)

inductive StandardOpcode where
  | copy | advancePc | advanceLine | setFile | setColumn | negateStmt | setBasicBlock | constAddPc | fixedAdvancePc
  | setPrologueEnd | setEpilogueBegin | setIsa
  | other (value : Nat)
deriving DecidableEq, Repr

def castStandardOpcode : Nat → StandardOpcode
  | 0x01 => .copy
  | 0x02 => .advancePc
  | 0x03 => .advanceLine
  | 0x04 => .setFile
  | 0x05 => .setColumn
  | 0x06 => .negateStmt
  | 0x07 => .setBasicBlock
  | 0x08 => .constAddPc
  | 0x09 => .fixedAdvancePc
  | 0x0a => .setPrologueEnd
  | 0x0b => .setEpilogueBegin
  | 0x0c => .setIsa
  | value => .other value

inductive ExtendedOpcode where
  | endSequence
  | setAddress
  | other (value : Nat)
deriving DecidableEq, Repr

def castExtendedOpcode : Nat → ExtendedOpcode
  | 0x01 => .endSequence
  | 0x02 => .setAddress
  | value => .other value

structure SourceRow where
  address : Nat
  fileName : List UInt8
  line : Int
  isEndOfSequence : Bool
deriving DecidableEq, Repr

structure DebugLineState where
  address : Nat
  opIndex : Nat
  fileIndex : Nat
  line : Int
  column : Nat
  isStmt : Bool
  basicBlock : Bool
  endSequence : Bool
  prologueEnd : Bool
  epilogueBegin : Bool
  isa : Nat
  discriminator : Nat
deriving DecidableEq, Repr

def DebugLineState.ofDefault (defaultIsStmt : Bool) : DebugLineState :=
  ⟨0,0,1,1,0,defaultIsStmt,false,false,false,false,0,0⟩

def toS32 (value : Int) : Int := (value + 2^31) % 2^32 - 2^31

def row (header : DebugLineHeader) (state : DebugLineState) (isEndOfSequence : Bool) : Except Failure SourceRow := do
  return ⟨state.address,← element header.tables.fileNames state.fileIndex,state.line,isEndOfSequence⟩

def skipped (message : String) (reader : Option ByteReader) : Except Failure ByteReader :=
  match reader with
  | some reader => .ok reader
  | none => .error (.asserted message)

-- What one turn of the loop leaves: the state, the row it appended, the reader.
abbrev Turn := DebugLineState × Option SourceRow × ByteReader

def readAddress (addressSize : Nat) (debugLine : ByteReader) : Except Failure (Nat × ByteReader) :=
  if addressSize = 4 then asserted "address_ok" debugLine.readU32
  else if addressSize = 8 then asserted "address_ok" debugLine.readU64
  else .error (.unreachable "")

-- The switch over the extended opcodes.
def extendedAction (header : DebugLineHeader) (length : Nat) (state : DebugLineState) (debugLine : ByteReader) :
    ExtendedOpcode → Except Failure Turn
  | .endSequence => do
      if length = 1 then
        let state := {state with endSequence := true}
        let appended ← row header state state.endSequence
        return (.ofDefault header.defaultValueOfIsStmtRegister,some appended,debugLine)
      else throw (.asserted "length == 1")
  | .setAddress => do
      let (address,debugLine) ← readAddress header.addressSize debugLine
      let debugLine ← skipped "skip_ok" (debugLine.skip (toS64 (sub64 (sub64 length header.addressSize) 1)))
      return ({state with address := address,opIndex := 0},none,debugLine)
  | .other _ => do
      let debugLine ← skipped "skip_ok" (debugLine.skip (toS64 (sub64 length 1)))
      return (state,none,debugLine)

def extendedOpcode (header : DebugLineHeader) (state : DebugLineState) (debugLine : ByteReader) :
    Except Failure Turn := do
  let (length,debugLine) ← asserted "length_ok" debugLine.readUleb128
  let (opcode,debugLine) ← asserted "extended_opcode_ok" debugLine.readU8
  extendedAction header length state debugLine (castExtendedOpcode opcode.toNat)

def skipOperands : Nat → ByteReader → Except Failure ByteReader
  | 0, reader => return reader
  | count+1, reader => do
      let (_,reader) ← asserted "ok" reader.readUleb128
      skipOperands count reader

def divide (dividend divisor : Nat) : Except Failure (Nat × Nat) :=
  if divisor = 0 then .error .divisionByZero else .ok (dividend / divisor,dividend % divisor)

def standardOpcode (header : DebugLineHeader) (opcode : Nat) (state : DebugLineState) (debugLine : ByteReader) :
    Except Failure Turn :=
  match castStandardOpcode opcode with
  | .copy => do
      let state := {state with
        basicBlock := false
        prologueEnd := false
        epilogueBegin := false
        discriminator := 0}
      return (state,some (← row header state false),debugLine)
  | .advancePc => do
      let (opAdvance,debugLine) ← asserted "op_advance_ok" debugLine.readUleb128
      let (quotient,rest) ← divide (add64 state.opIndex opAdvance) header.maximumOperationsPerInstruction
      return ({state with
        address := add64 state.address (mul64 header.minimumInstructionLength quotient)
        opIndex := rest},none,debugLine)
  | .advanceLine => do
      let (lineAdvance,debugLine) ← asserted "line_advance_ok" debugLine.readSleb128
      return ({state with line := toS32 (state.line + lineAdvance)},none,debugLine)
  | .setFile => do
      let (newFileIndex,debugLine) ← asserted "new_file_index_ok" debugLine.readUleb128
      return ({state with fileIndex := newFileIndex % 2^32},none,debugLine)
  | .setColumn => do
      let (newColumn,debugLine) ← asserted "new_column_ok" debugLine.readUleb128
      return ({state with column := newColumn % 2^32},none,debugLine)
  | .negateStmt => return ({state with isStmt := !state.isStmt},none,debugLine)
  | .setBasicBlock => return ({state with basicBlock := true},none,debugLine)
  | .constAddPc => do
      let (opAdvance,_) ← divide (255 - header.opcodeBase) header.lineRange
      return ({state with address := add64 state.address (opAdvance * header.minimumInstructionLength)},none,debugLine)
  | .fixedAdvancePc => do
      let (opAdvance,debugLine) ← asserted "op_advance_ok" debugLine.readU16
      return ({state with address := add64 state.address opAdvance,opIndex := 0},none,debugLine)
  | .setPrologueEnd => return ({state with prologueEnd := true},none,debugLine)
  | .setEpilogueBegin => return ({state with epilogueBegin := true},none,debugLine)
  | .setIsa => do
      let (newIsa,debugLine) ← asserted "new_isa_ok" debugLine.readUleb128
      return ({state with isa := newIsa % 2^32},none,debugLine)
  | .other _ => do
      let operandCount ← header.standardOpcodeLengths.get ((opcode : Int) - 1)
      return (state,none,← skipOperands operandCount.toNat debugLine)

def specialOpcode (header : DebugLineHeader) (opcode : Nat) (state : DebugLineState) (debugLine : ByteReader) :
    Except Failure Turn := do
  let (opAdvance,rest) ← divide (opcode - header.opcodeBase) header.lineRange
  let lineAdvance := header.lineBase + rest
  let (_,opIndex) ← divide (add64 state.opIndex opAdvance) header.maximumOperationsPerInstruction
  let state := {state with
    address := add64 state.address (opAdvance * header.minimumInstructionLength)
    line := toS32 (state.line + lineAdvance)
    opIndex := opIndex}
  return (state,some (← row header state false),debugLine)

def lineTurn (header : DebugLineHeader) (state : DebugLineState) (debugLine : ByteReader) : Except Failure Turn := do
  let (opcode,debugLine) ← asserted "ok" debugLine.readU8
  if opcode.toNat = 0 then extendedOpcode header state debugLine
  else if opcode.toNat < header.opcodeBase then standardOpcode header opcode.toNat state debugLine
  else specialOpcode header opcode.toNat state debugLine

-- unit_end is unsigned, so the offset is compared as an unsigned number.
def lineLoop (header : DebugLineHeader) (unitEnd : Nat) :
    Nat → DebugLineState → ByteReader → Except Failure (List SourceRow × ByteReader)
  | 0, _, _ => throw .outOfSteps
  | steps+1, state, debugLine => do
      if toU64 debugLine.currentOffset < unitEnd then
        let (state,appended,debugLine) ← lineTurn header state debugLine
        let (rows,debugLine) ← lineLoop header unitEnd steps state debugLine
        return (appended.toList ++ rows,debugLine)
      else return ([],debugLine)

def parseLineTable (steps : Nat) (sections : Sections) (debugLineOffset : Nat) : Except Failure (List SourceRow) := do
  let normalizedOffset ← normalizeSectionOffset sections.debugLine debugLineOffset
  let debugLine ← skipped "skip_ok" ((ofSource sections.debugLine.bytes).skip normalizedOffset)
  let (header,debugLine) ← parseDebugLineHeader debugLine sections
  let payloadStart := normalizedOffset + 4
  if sections.debugLine.bytes.length < payloadStart then throw (.asserted "payload_start <= debug_line.size")
  if sections.debugLine.bytes.length - payloadStart < header.unitLength then
    throw (.asserted "header.unit_length <= debug_line.size - payload_start")
  let unitEnd := payloadStart + header.unitLength
  let (rows,debugLine) ←
    lineLoop header unitEnd steps (.ofDefault header.defaultValueOfIsStmtRegister) debugLine
  if debugLine.currentOffset ≠ unitEnd then throw (.asserted "debug_line.current_offset == unit_end")
  return rows

end Dwarf
