import Gameos.BoundedLoops
import Gameos.DwarfForms

-- Abbreviations and debugging information entries: dwarf.hh from
-- parse_attribute_specs to parse_subprograms.
namespace Dwarf
open MachineWords ByteReader BoundedLoops

inductive Tag where
  | compileUnit
  | subprogram
  | other (value : Nat)
deriving DecidableEq, Repr

def castTag (value : Nat) : Tag :=
  if value = 0x11 then .compileUnit
  else if value = 0x2e then .subprogram
  else .other value

inductive AttributeType where
  | name | stmtList | lowPc | highPc | specification | strOffsetsBase | addrBase
  | other (value : Nat)
deriving DecidableEq, Repr

def castAttributeType (value : Nat) : AttributeType :=
  if value = 0x03 then .name
  else if value = 0x10 then .stmtList
  else if value = 0x11 then .lowPc
  else if value = 0x12 then .highPc
  else if value = 0x47 then .specification
  else if value = 0x72 then .strOffsetsBase
  else if value = 0x73 then .addrBase
  else .other value

structure AttributeSpec where
  attributeType : AttributeType
  form : Form
  implicitConst : Int
deriving DecidableEq, Repr

structure Abbreviation where
  tag : Tag
  hasChildren : Bool
  attributeSpecs : List AttributeSpec
deriving DecidableEq, Repr

-- Hash_Table<u64, V> as its pairs, the last one set first.
abbrev Table (V : Type) := List (Nat × V)

def Table.set (table : Table V) (key : Nat) (value : V) : Table V := (key,value) :: table
def Table.find (table : Table V) (key : Nat) : Option V := (List.find? (fun pair => pair.1 = key) table).map (·.2)

theorem Table.find_of_unique {table : Table V} (unique : (table.map (·.1)).Nodup) (here : (key,value) ∈ table) :
    table.find key = some value := by
  induction table with
  | nil => cases here
  | cons pair table ih =>
      rw [List.map_cons,List.nodup_cons] at unique
      obtain ⟨fresh,unique⟩ := unique
      rcases List.mem_cons.mp here with rfl | here
      · simp [Table.find]
      · have other : pair.1 ≠ key := by
          rintro rfl
          exact fresh (List.mem_map_of_mem (f:=(·.1)) here)
        have rest := ih unique here
        unfold Table.find at rest ⊢
        rwa [List.find?_cons_of_neg (by simpa using other)]

abbrev Abbreviations := Table Abbreviation

def attributeSpecTurn (state : List AttributeSpec × ByteReader) :
    Except Failure (BoundedLoops.Turn (List AttributeSpec × ByteReader) (List AttributeSpec × ByteReader)) := do
  let (attributeSpecs,debugAbbrev) := state
  let (attributeType,debugAbbrev) ← asserted "attribute_type_ok" debugAbbrev.readUleb128
  let (form,debugAbbrev) ← asserted "form_ok" debugAbbrev.readUleb128
  if attributeType = 0 ∧ form = 0 then return .done (attributeSpecs,debugAbbrev)
  else
    let (implicitConst,debugAbbrev) ←
      (if castForm form = .implicitConst then asserted "implicit_const_ok" debugAbbrev.readSleb128
        else .ok (0,debugAbbrev))
    return .again (attributeSpecs ++ [⟨castAttributeType attributeType,castForm form,implicitConst⟩],debugAbbrev)

def parseAttributeSpecs (turns : Nat) (debugAbbrev : ByteReader) : Except Failure (List AttributeSpec × ByteReader) :=
  loop .outOfSteps attributeSpecTurn turns ([],debugAbbrev)

def abbreviationTurn (turns : Nat) (state : Abbreviations × ByteReader) :
    Except Failure (BoundedLoops.Turn (Abbreviations × ByteReader) (Abbreviations × ByteReader)) := do
  let (abbreviations,debugAbbrev) := state
  let (abbreviationCode,debugAbbrev) ← asserted "code_ok" debugAbbrev.readUleb128
  if abbreviationCode = 0 then return .done (abbreviations,debugAbbrev)
  else
    let (tag,debugAbbrev) ← asserted "tag_ok" debugAbbrev.readUleb128
    let (hasChildren,debugAbbrev) ← asserted "has_children_ok" debugAbbrev.readBool
    let (attributeSpecs,debugAbbrev) ← parseAttributeSpecs turns debugAbbrev
    return .again (abbreviations.set abbreviationCode ⟨castTag tag,hasChildren,attributeSpecs⟩,debugAbbrev)

def parseAbbreviations (turns : Nat) (debugAbbrev : ByteReader) : Except Failure (Abbreviations × ByteReader) :=
  loop .outOfSteps (abbreviationTurn turns) turns ([],debugAbbrev)

structure CompilationUnitHeader where
  length : Nat
  version : Nat
  type : Nat
  addressSize : Nat
  abbreviationOffset : Nat
deriving DecidableEq, Repr

def parseCompilationUnitHeader (debugInfo : ByteReader) : Except Failure (CompilationUnitHeader × ByteReader) := do
  let (length,debugInfo) ← asserted "length_ok" debugInfo.readU32
  if length = 0xffffffff then throw (.asserted "dwarf: 64-bit DWARF format unsupported")
  else
    let (version,debugInfo) ← asserted "version_ok" debugInfo.readU16
    if version ≠ 5 then throw (.asserted "We only support DWARF5.")
    else
      let (type,debugInfo) ← asserted "type_value_ok" debugInfo.readU8
      let (addressSize,debugInfo) ← asserted "address_size_ok" debugInfo.readU8
      let (abbreviationOffset,debugInfo) ← asserted "abbreviation_offset_ok" debugInfo.readU32
      return (⟨length,version,type.toNat,addressSize.toNat,abbreviationOffset⟩,debugInfo)

structure SubprogramInfo where
  name : List UInt8
  lowPc : Nat
  highPc : Nat
deriving DecidableEq, Repr

structure PendingSubprogram where
  specificationOffset : Nat
  name : List UInt8
  lowPc : Nat
  highPc : Nat
  hasName : Bool
  highPcIsOffset : Bool
deriving DecidableEq, Repr

-- What one entry gave so far: the variables declared at the start of a turn.
structure EntryState where
  hasName : Bool
  hasLowPc : Bool
  hasHighPc : Bool
  name : List UInt8
  lowPc : Nat
  highPcRaw : Nat
  specificationOffset : Nat
  highPcIsOffset : Bool
deriving DecidableEq, Repr

def EntryState.init : EntryState := ⟨false,false,false,[],0,0,0,false⟩

-- What the walk over a unit carries from one entry to the next.
structure UnitState where
  names : Table (List UInt8)
  pendingSubprograms : List PendingSubprogram
  debugLineOffset : Nat
  hasDebugLineOffset : Bool
  hasDebugStrOffsetsBase : Bool
  hasDebugAddrBase : Bool
  scopeStack : List Bool
  sections : Sections
deriving DecidableEq, Repr

def UnitState.init (sections : Sections) : UnitState := ⟨[],[],0,false,false,false,[],sections⟩

-- What the walk leaves of the sections: their bytes, with no base.
def contents (sections : Sections) : Sections := {sections with debugStrOffsetsBase := 0,debugAddrBase := 0}

theorem contents_debugAbbrev (same : contents a = contents b) : a.debugAbbrev = b.debugAbbrev :=
  show (contents a).debugAbbrev = (contents b).debugAbbrev from by rw [same]

def unsignedOf : AttributeValue → Except Failure Nat
  | .unsigned value => .ok value
  | _ => .error (.asserted "value.kind == Attribute_Value_Kind::UNSIGNED")

def stringOf : AttributeValue → Except Failure (List UInt8)
  | .string value => .ok value
  | _ => .error (.asserted "value.kind == Attribute_Value_Kind::STRING")

-- The switch over the attributes of a subprogram.
def recordSubprogram (unitStart : Nat) (spec : AttributeSpec) (value : AttributeValue) (entry : EntryState) :
    Except Failure EntryState :=
  match spec.attributeType with
  | .name => do
      let text ← stringOf value
      return {entry with name := text,hasName := true}
  | .lowPc => do
      let address ← unsignedOf value
      return {entry with lowPc := address,hasLowPc := true}
  | .highPc => do
      let raw ← unsignedOf value
      return {entry with highPcRaw := raw,highPcIsOffset := spec.form ≠ .addr,hasHighPc := true}
  | .specification => do
      let offset ← unsignedOf value
      return {entry with specificationOffset := add64 unitStart offset}
  | _ => return entry

-- The attributes of the unit itself, each allowed once and in its root only.
def recordUnit (tag : Tag) (spec : AttributeSpec) (value : AttributeValue) (unit : UnitState) :
    Except Failure UnitState :=
  match spec.attributeType with
  | .stmtList => do
      if tag ≠ .compileUnit then throw (.asserted "declaration->tag == Tag::COMPILE_UNIT")
      else if unit.hasDebugLineOffset then throw (.asserted "Should only have one per compilation unit.")
      else
        let offset ← unsignedOf value
        return {unit with debugLineOffset := offset % 2^32,hasDebugLineOffset := true}
  | .strOffsetsBase => do
      if tag ≠ .compileUnit then throw (.asserted "declaration->tag == Tag::COMPILE_UNIT")
      else if unit.hasDebugStrOffsetsBase then throw (.asserted "Should only have one per compilation unit.")
      else
        let base ← unsignedOf value
        return {unit with sections := {unit.sections with debugStrOffsetsBase := base},hasDebugStrOffsetsBase := true}
  | .addrBase => do
      if tag ≠ .compileUnit then throw (.asserted "declaration->tag == Tag::COMPILE_UNIT")
      else if unit.hasDebugAddrBase then throw (.asserted "Should only have one per compilation unit.")
      else
        let base ← unsignedOf value
        return {unit with sections := {unit.sections with debugAddrBase := base},hasDebugAddrBase := true}
  | _ => return unit

-- What the turns of one unit have in common.
structure UnitContext where
  unitStart : Nat
  unitEnd : Nat
  abbreviations : Abbreviations
  addressSize : Nat
deriving DecidableEq, Repr

def recordAttribute (context : UnitContext) (tag : Tag) (spec : AttributeSpec) (value : AttributeValue)
    (entry : EntryState) (unit : UnitState) : Except Failure (EntryState × UnitState) := do
  let entry ← (if tag = .subprogram then recordSubprogram context.unitStart spec value entry else .ok entry)
  let unit ← recordUnit tag spec value unit
  return (entry,unit)

-- The loop over the attribute specs of a declaration.
def readAttributes (context : UnitContext) (tag : Tag) :
    List AttributeSpec → EntryState → UnitState → ByteReader → Except Failure (EntryState × UnitState × ByteReader)
  | [], entry, unit, debugInfo => return (entry,unit,debugInfo)
  | spec :: specs, entry, unit, debugInfo => do
      let (value,debugInfo) ← readAttributeValue context.addressSize spec.implicitConst unit.sections
        (debugInfo.source.length+1) spec.form debugInfo
      let (entry,unit) ← recordAttribute context tag spec value entry unit
      readAttributes context tag specs entry unit debugInfo

def recordEntry (declaration : Abbreviation) (offset : Nat) (entry : EntryState) (unit : UnitState) : UnitState :=
  let unit :=
    if declaration.tag = .subprogram then
      let unit := if entry.hasName then {unit with names := unit.names.set offset entry.name} else unit
      if entry.hasLowPc ∧ entry.hasHighPc then
        {unit with pendingSubprograms := unit.pendingSubprograms ++ [⟨entry.specificationOffset,entry.name,entry.lowPc,
          entry.highPcRaw,entry.hasName,entry.highPcIsOffset⟩]}
      else unit
    else unit
  if declaration.hasChildren then {unit with scopeStack := true :: unit.scopeStack} else unit

theorem recordUnit_contents (recorded : recordUnit tag spec value unit = .ok unit') :
    contents unit'.sections = contents unit.sections := by
  unfold recordUnit at recorded
  split at recorded
  all_goals try
    split at recorded
    · cases recorded
    · split at recorded
      · cases recorded
      · obtain ⟨number,_,recorded⟩ := ok_of_bind recorded
        cases recorded
        rfl
  cases recorded
  rfl

theorem recordAttribute_contents (recorded : recordAttribute context tag spec value entry unit = .ok (entry',unit')) :
    contents unit'.sections = contents unit.sections := by
  obtain ⟨entry'',_,recorded⟩ := ok_of_bind recorded
  obtain ⟨unit'',same,recorded⟩ := ok_of_bind recorded
  cases recorded
  exact recordUnit_contents same

theorem recordEntry_sections (declaration : Abbreviation) (offset : Nat) (entry : EntryState) (unit : UnitState) :
    (recordEntry declaration offset entry unit).sections = unit.sections := by
  unfold recordEntry
  dsimp only
  split_ifs <;> rfl

-- One turn of the walk. The end of the unit is unsigned, so the offset is
-- compared as an unsigned number.
def entryTurn (context : UnitContext) (state : UnitState × ByteReader) :
    Except Failure (BoundedLoops.Turn (UnitState × ByteReader) (UnitState × ByteReader)) := do
  let (unit,debugInfo) := state
  if context.unitEnd ≤ toU64 debugInfo.currentOffset then return .done (unit,debugInfo)
  else
    let offset := toU64 debugInfo.currentOffset
    let (abbreviationCode,debugInfo) ← asserted "code_ok" debugInfo.readUleb128
    if abbreviationCode = 0 then
      match unit.scopeStack with
      | [] => return .done (unit,debugInfo)
      | _ :: scopeStack => return .again ({unit with scopeStack := scopeStack},debugInfo)
    else
      match context.abbreviations.find abbreviationCode with
      | none => throw (.asserted
          "Shouldn't be possible for it to not exist if it's referenced. Compiler error?")
      | some declaration =>
        let (entry,unit,debugInfo) ←
          readAttributes context declaration.tag declaration.attributeSpecs .init unit debugInfo
        return .again (recordEntry declaration offset entry unit,debugInfo)

def subprogramInfo (names : Table (List UInt8)) (pending : PendingSubprogram) : Option SubprogramInfo :=
  let name :=
    if pending.hasName = false ∧ pending.specificationOffset ≠ 0 then names.find pending.specificationOffset
    else some pending.name
  match name with
  | none => none
  | some name =>
    if name.isEmpty then none
    else
      let highPc := if pending.highPcIsOffset then add64 pending.lowPc pending.highPc else pending.highPc
      some ⟨name,pending.lowPc,highPc⟩

def parseCompilationUnitDebugInformationEntries (turns : Nat) (context : UnitContext) (sections : Sections)
    (debugInfo : ByteReader) : Except Failure (List SubprogramInfo × UnitState × ByteReader) := do
  let (unit,debugInfo) ← loop .outOfSteps (entryTurn context) turns (.init sections,debugInfo)
  return (unit.pendingSubprograms.filterMap (subprogramInfo unit.names),unit,debugInfo)

structure ParseState where
  infos : List SubprogramInfo
  debugLineOffset : Nat
  hasDebugLineOffset : Bool
  sections : Sections
  debugInfo : ByteReader
deriving DecidableEq, Repr

-- The unit that begins where the loop over the units stands.
def contextOf (state : ParseState) (header : CompilationUnitHeader) (abbreviations : Abbreviations) : UnitContext where
  unitStart := toU64 state.debugInfo.currentOffset
  unitEnd := add64 (add64 (toU64 state.debugInfo.currentOffset) 4) header.length
  abbreviations := abbreviations
  addressSize := header.addressSize

-- What a walk adds to the result; the reader ends up where the header says the
-- unit ends.
def afterUnit (state : ParseState) (infos : List SubprogramInfo) (unit : UnitState) (debugInfo : ByteReader)
    (unitEnd : Nat) : ParseState :=
  let firstOffset := !state.hasDebugLineOffset && unit.hasDebugLineOffset
  { infos := state.infos ++ infos
    debugLineOffset := if firstOffset then unit.debugLineOffset else state.debugLineOffset
    hasDebugLineOffset := state.hasDebugLineOffset || firstOffset
    sections := unit.sections
    debugInfo := {debugInfo with currentOffset := toS64 unitEnd}}

section AfterUnit
variable (state : ParseState) (infos : List SubprogramInfo) (unit : UnitState) (debugInfo : ByteReader) (unitEnd : Nat)

@[simp] theorem afterUnit_infos : (afterUnit state infos unit debugInfo unitEnd).infos = state.infos ++ infos := rfl
@[simp] theorem afterUnit_sections : (afterUnit state infos unit debugInfo unitEnd).sections = unit.sections := rfl
-- of the pair of its fields: a reader on both sides would have its offsets compared
@[simp] theorem afterUnit_source (source : List UInt8) (offset : Int) :
    (afterUnit state infos unit ⟨source,offset⟩ unitEnd).debugInfo.source = source := rfl
@[simp] theorem afterUnit_offset :
    (afterUnit state infos unit debugInfo unitEnd).debugInfo.currentOffset = toS64 unitEnd := rfl

end AfterUnit

-- One turn of the loop over the units.
def unitTurn (turns : Nat) (state : ParseState) : Except Failure (BoundedLoops.Turn ParseState ParseState) := do
  if state.debugInfo.remaining ≤ 0 then return .done state
  else
    let (header,debugInfo) ← parseCompilationUnitHeader state.debugInfo
    let abbreviationOffset ← normalizeSectionOffset state.sections.debugAbbrev header.abbreviationOffset
    let (abbreviations,_) ← parseAbbreviations turns
      (ofSource (state.sections.debugAbbrev.bytes.drop abbreviationOffset))
    let context := contextOf state header abbreviations
    let (infos,unit,debugInfo) ←
      parseCompilationUnitDebugInformationEntries turns context state.sections debugInfo
    return .again (afterUnit state infos unit debugInfo context.unitEnd)

def parseSubprograms (turns : Nat) (sections : Sections) (debugInfo : ByteReader) : Except Failure ParseState :=
  loop .outOfSteps (unitTurn turns) turns ⟨[],0,false,sections,debugInfo⟩

end Dwarf
