import Gameos.DwarfLineTurns

namespace Dwarf
open MachineWords ByteReader LineProgram

theorem opIndex_bounded (p : Parameters) (r : Registers) (instruction : Instruction)
    (positive : 0 < p.maximumOperations) (bounded : r.opIndex < p.maximumOperations) :
    (execute p r instruction).1.opIndex < p.maximumOperations := by
  cases instruction with
  | special adjusted => exact Nat.mod_lt _ positive
  | advancePc operationAdvance => exact Nat.mod_lt _ positive
  | constAddPc => exact Nat.mod_lt _ positive
  | fixedAdvancePc _ => exact positive
  | setAddress _ => exact positive
  | endSequence => exact positive
  | _ => exact bounded

-- One instruction, from bytes the reader stands in front of.
theorem turn_simulates {header : DebugLineHeader} {p : Parameters} {r : Registers} {state : DebugLineState}
    (describes : Describes header p) (usable : Usable p) (encodes : Encodes p instruction bytes)
    (stands : Stands reader before (bytes ++ after)) (small : reader.source.length < 2^63)
    (agrees : Agrees state r) (bounded : r.opIndex < p.maximumOperations)
    (admits : Admits p header.tables.fileNames r instruction) :
    Simulates header state reader p r instruction bytes.length := by
  cases encodes with
  | special above => exact simulates_special describes usable above stands agrees bounded admits
  | copy below => exact simulates_copy describes below stands agrees admits
  | advancePc below operand =>
      rw [List.length_cons,Nat.add_comm]
      exact simulates_advancePc describes usable below operand stands agrees admits
  | advanceLine below operand =>
      rw [List.length_cons,Nat.add_comm]
      exact simulates_advanceLine describes below operand stands agrees admits
  | setFile below operand =>
      rw [List.length_cons,Nat.add_comm]
      exact simulates_operand (m:=4) (fun n => {state with fileIndex := n % 2^32}) describes operand stands rfl
        (by decide) below (fun _ => rfl) rfl ⟨agrees.address,agrees.opIndex,rfl,agrees.line⟩
  | setColumn below operand =>
      rw [List.length_cons,Nat.add_comm]
      exact simulates_operand (m:=5) (fun n => {state with column := n % 2^32}) describes operand stands rfl
        (by decide) below (fun _ => rfl) rfl ⟨agrees.address,agrees.opIndex,agrees.fileIndex,agrees.line⟩
  | negateStmt below =>
      exact simulates_flag (m:=6) _ describes stands rfl (by decide) below (fun _ => rfl) rfl
        ⟨agrees.address,agrees.opIndex,agrees.fileIndex,agrees.line⟩
  | setBasicBlock below =>
      exact simulates_flag (m:=7) _ describes stands rfl (by decide) below (fun _ => rfl) rfl
        ⟨agrees.address,agrees.opIndex,agrees.fileIndex,agrees.line⟩
  | constAddPc below => exact simulates_constAddPc describes usable below stands agrees admits
  | fixedAdvancePc below width =>
      rw [List.length_cons,Nat.add_comm]
      exact simulates_fixedAdvancePc describes below width stands agrees admits
  | setPrologueEnd below =>
      exact simulates_flag (m:=10) _ describes stands rfl (by decide) below (fun _ => rfl) rfl
        ⟨agrees.address,agrees.opIndex,agrees.fileIndex,agrees.line⟩
  | setEpilogueBegin below =>
      exact simulates_flag (m:=11) _ describes stands rfl (by decide) below (fun _ => rfl) rfl
        ⟨agrees.address,agrees.opIndex,agrees.fileIndex,agrees.line⟩
  | setIsa below operand =>
      rw [List.length_cons,Nat.add_comm]
      exact simulates_operand (m:=12) (fun n => {state with isa := n % 2^32}) describes operand stands rfl
        (by decide) below (fun _ => rfl) rfl ⟨agrees.address,agrees.opIndex,agrees.fileIndex,agrees.line⟩
  | vendor unknown below listed counted operands =>
      rw [List.length_cons,Nat.add_comm]
      exact simulates_vendor describes unknown below listed counted operands stands agrees
  | @endSequence length announced =>
      rw [show (0 :: (length ++ [1])).length = length.length + 2 by simp]
      rw [List.cons_append,List.append_assoc] at stands
      exact simulates_endSequence announced stands agrees admits
  | @setAddress length address width announced =>
      rw [show (0 :: (length ++ 2 :: address)).length = length.length + 2 + address.length by simp; omega]
      rw [List.cons_append,List.append_assoc] at stands
      exact simulates_setAddress describes usable width announced stands agrees
  | @setDiscriminator n payload length operand announced =>
      rw [show (0 :: (length ++ 4 :: payload)).length = length.length + 2 + payload.length by simp; omega]
      rw [List.cons_append,List.append_assoc] at stands
      exact simulates_skipped payload announced (by decide) (by decide) stands rfl
        ⟨agrees.address,agrees.opIndex,agrees.fileIndex,agrees.line⟩ (by have := operand.short; omega)
  | @extended opcode length payload notEnd notAddress _ announced =>
      rw [show (0 :: (length ++ opcode :: payload)).length = length.length + 2 + payload.length by simp; omega]
      rw [List.cons_append,List.append_assoc] at stands
      have within : payload.length < 2^63 := by
        have source := congrArg List.length stands.source
        simp only [List.length_append,List.length_cons] at source
        omega
      exact simulates_skipped payload announced (fun same => notEnd (UInt8.toNat_inj.mp same))
        (fun same => notAddress (UInt8.toNat_inj.mp same)) stands rfl agrees within

-- The condition is also necessary: where a turn agrees, `Advances` holds.
theorem turn_advances {header : DebugLineHeader} {p : Parameters} {r : Registers} {state : DebugLineState}
    (describes : Describes header p) (usable : Usable p) (encodes : Encodes p instruction bytes)
    (stands : Stands reader before (bytes ++ after)) (agrees : Agrees state r)
    (bounded : r.opIndex < p.maximumOperations) (fits : Fits p r instruction)
    (simulates : Simulates header state reader p r instruction bytes.length) : Advances p r instruction := by
  cases encodes with
  | special above => exact special_advances describes usable above stands agrees bounded fits simulates
  | constAddPc below => exact constAddPc_advances describes usable below stands agrees bounded fits simulates
  | _ => trivial

-- Every instruction of the program meets its condition in the state it runs in.
def Admitted (p : Parameters) (fileNames : List (List UInt8)) : Registers → List Instruction → Prop
  | _, [] => True
  | r, instruction :: program =>
      Admits p fileNames r instruction ∧ Admitted p fileNames (execute p r instruction).1 program

theorem loop_simulates {header : DebugLineHeader} {p : Parameters} {r : Registers} {state : DebugLineState}
    {reader : ByteReader} (describes : Describes header p) (usable : Usable p)
    (encoded : EncodesProgram p program bytes) (stands : Stands reader before (bytes ++ after))
    (small : reader.source.length < 2^63) (agrees : Agrees state r) (bounded : r.opIndex < p.maximumOperations)
    (admitted : Admitted p header.tables.fileNames r program) (enough : program.length < steps) :
    lineLoop header (before.length + bytes.length) steps state reader =
      .ok ((rows p r program).map (named header.tables.fileNames),reader.advance bytes.length) := by
  have place : toU64 reader.currentOffset = before.length := by
    have source := congrArg List.length stands.source
    rw [List.length_append] at source
    rw [stands.offset,toU64_nat _ (by omega)]
  obtain ⟨steps,rfl⟩ : ∃ n, steps = n + 1 := ⟨steps-1,by omega⟩
  induction encoded generalizing reader before r state steps with
  | nil =>
      rw [lineLoop,place,if_neg (by simp)]
      rw [List.length_nil,ByteReader.advance,Int.natCast_zero,Int.add_zero]
      rfl
  | @cons instruction first program rest encodes _ ih =>
      have positive := encodes.positive
      rw [List.append_assoc] at stands
      obtain ⟨state',turned,agrees'⟩ := turn_simulates describes usable encodes stands small agrees bounded admitted.1
      have next := stands.advance
      have behind : toU64 (reader.advance first.length).currentOffset = (before ++ first).length := by
        have source := congrArg List.length next.source
        rw [List.length_append] at source
        rw [next.offset,toU64_nat _ (by have : (reader.advance first.length).source = reader.source := rfl
                                        rw [this] at source; omega)]
      rw [List.length_cons] at enough
      obtain ⟨steps,rfl⟩ : ∃ n, steps = n + 1 := ⟨steps-1,by omega⟩
      have later := ih next small agrees' (opIndex_bounded p r instruction usable.maximumOperations.1 bounded)
        admitted.2 behind steps (by omega)
      rw [List.length_append] at later
      rw [lineLoop,place,if_pos (by rw [List.length_append]; omega),turned,ok_bind]
      simp only
      rw [List.length_append,← Nat.add_assoc,later,ok_bind,advance_advance,← Int.natCast_add,rows,List.map_append]
      cases (execute p r instruction).2 <;> rfl

-- A DWARF 5 line-number unit in the 32 bit format, without what the directory
-- and file tables mean. `extra` is what the header holds behind the tables.
structure LineUnit where
  addressSize : UInt8
  segmentSelectorSize : UInt8
  minimumInstructionLength : UInt8
  maximumOperations : UInt8
  defaultIsStmt : UInt8
  lineBase : UInt8
  lineRange : UInt8
  opcodeLengths : List UInt8
  tables : List UInt8
  extra : List UInt8
  program : List UInt8
deriving DecidableEq, Repr

namespace LineUnit

def parameters (u : LineUnit) : Parameters where
  addressSize := u.addressSize.toNat
  minimumInstructionLength := u.minimumInstructionLength.toNat
  maximumOperations := u.maximumOperations.toNat
  defaultIsStmt := u.defaultIsStmt != 0
  lineBase := bitCastS8 u.lineBase
  lineRange := u.lineRange.toNat
  opcodeLengths := u.opcodeLengths

def headerLength (u : LineUnit) : Nat := 6 + u.opcodeLengths.length + u.tables.length + u.extra.length

def unitLength (u : LineUnit) : Nat := 8 + u.headerLength + u.program.length

-- The bytes in front of the tables.
def head (u : LineUnit) : List UInt8 :=
  bytesOf 4 u.unitLength ++ (bytesOf 2 5 ++ (u.addressSize :: u.segmentSelectorSize :: (bytesOf 4 u.headerLength ++
    (u.minimumInstructionLength :: u.maximumOperations :: u.defaultIsStmt :: u.lineBase :: u.lineRange ::
      .ofNat (u.opcodeLengths.length + 1) :: u.opcodeLengths))))

def bytes (u : LineUnit) : List UInt8 := u.head ++ (u.tables ++ (u.extra ++ u.program))

structure WellFormed (u : LineUnit) : Prop where
  addressSize : u.addressSize = 4 ∨ u.addressSize = 8
  maximumOperations : u.maximumOperations ≠ 0
  lineRange : u.lineRange ≠ 0
  opcodeLengths : u.opcodeLengths.length < 255
  unitLength : u.unitLength < 0xfffffff0

theorem usable (u : LineUnit) (wellFormed : u.WellFormed) : Usable u.parameters where
  addressSize := by
    rcases wellFormed.addressSize with four | eight
    · left; rw [parameters,four]; rfl
    · right; rw [parameters,eight]; rfl
  minimumInstructionLength := u.minimumInstructionLength.toNat_lt
  maximumOperations := by
    refine ⟨?_,u.maximumOperations.toNat_lt⟩
    have nonzero := wellFormed.maximumOperations
    rw [ne_eq,← UInt8.toNat_inj] at nonzero
    exact Nat.pos_of_ne_zero nonzero
  lineRange := by
    have nonzero := wellFormed.lineRange
    rw [ne_eq,← UInt8.toNat_inj] at nonzero
    exact Nat.pos_of_ne_zero nonzero

theorem head_length (u : LineUnit) : u.head.length = 18 + u.opcodeLengths.length := by
  simp only [head,List.length_append,List.length_cons,bytesOf_length]; omega

theorem bytes_length (u : LineUnit) : u.bytes.length = 4 + u.unitLength := by
  simp only [bytes,List.length_append,head_length,unitLength,headerLength]; omega

end LineUnit

-- The fields in front of the tables, read one by one.
theorem header_parsed {u : LineUnit} {reader : ByteReader} (wellFormed : u.WellFormed)
    (stands : Stands reader before (u.bytes ++ after))
    (read : parseTables (reader.advance u.head.length) u.addressSize.toNat sections = .ok (tables,rest)) :
    ∃ header, parseDebugLineHeader reader sections = .ok (header,rest) ∧ Describes header u.parameters ∧
      header.unitLength = u.unitLength ∧ header.tables = tables := by
  have base : (UInt8.ofNat (u.opcodeLengths.length + 1)).toNat = u.opcodeLengths.length + 1 := by
    have small := wellFormed.opcodeLengths
    rw [UInt8.toNat_ofNat',Nat.mod_eq_of_lt (by omega)]
  have short : u.headerLength ≤ u.unitLength := by rw [LineUnit.unitLength]; omega
  have length : littleEndian (bytesOf 4 u.unitLength) = u.unitLength :=
    littleEndian_bytesOf (by have := wellFormed.unitLength; omega)
  have wide : u.unitLength < 0xfffffff0 := wellFormed.unitLength
  have fields := stands
  simp only [LineUnit.bytes,LineUnit.head,List.append_assoc,List.cons_append] at fields
  have version := fields.advance
  have addressSize := version.advance
  have segmentSelectorSize := addressSize.advance_one
  have headerLength := segmentSelectorSize.advance_one
  have minimumInstructionLength := headerLength.advance
  have maximumOperations := minimumInstructionLength.advance_one
  have defaultIsStmt := maximumOperations.advance_one
  have lineBase := defaultIsStmt.advance_one
  have lineRange := lineBase.advance_one
  have opcodeBase := lineRange.advance_one
  have lengths := opcodeBase.advance_one
  have count : ((u.opcodeLengths.length + 1 : Nat) : Int) - 1 = u.opcodeLengths.length := by omega
  have five : littleEndian (bytesOf 2 5) = 5 := littleEndian_bytesOf (by decide)
  rw [parseDebugLineHeader]
  simp only [readU32,readU16,fields.readLittleEndian (bytesOf_length 4 _),asserted_ok,ok_bind,
    version.readLittleEndian (bytesOf_length 2 _),five,dwarfVersion,ne_eq,not_true_eq_false,if_false,
    addressSize.readU8,segmentSelectorSize.readU8,headerLength.readLittleEndian (bytesOf_length 4 _),
    minimumInstructionLength.readU8,maximumOperations.readU8,defaultIsStmt.readBool,lineBase.readS8,lineRange.readU8,
    opcodeBase.readU8,base,count,lengths.readBytes]
  have place : reader.advance u.head.length =
      ((((((((((((reader.advance (bytesOf 4 u.unitLength).length).advance (bytesOf 2 5).length).advance 1).advance
        1).advance (bytesOf 4 u.headerLength).length).advance 1).advance 1).advance 1).advance 1).advance 1).advance
        1).advance u.opcodeLengths.length) := by
    simp only [advance_advance,bytesOf_length,LineUnit.head_length]
    congr 1
  rw [← place,read,ok_bind]
  exact ⟨_,rfl,⟨rfl,rfl,rfl,rfl,rfl,rfl,rfl,fun _ _ inside => lengths.view inside⟩,length,rfl⟩

-- Where the tables end at the announced start of the program and every
-- instruction meets its condition, the rows are those of the reference machine.
theorem line_table_rows (u : LineUnit) (wellFormed : u.WellFormed) (sections : Sections)
    (placed : sections.debugLine.bytes = before ++ (u.bytes ++ after))
    (size : sections.debugLine.bytes.length < 2^63)
    (located : normalizeSectionOffset sections.debugLine offset = .ok before.length)
    (read : parseTables ⟨sections.debugLine.bytes,before.length + u.head.length⟩ u.addressSize.toNat sections =
      .ok (tables,⟨sections.debugLine.bytes,before.length + u.head.length + u.tables.length⟩))
    (starts : u.extra = []) (encoded : EncodesProgram u.parameters program u.program)
    (admitted : Admitted u.parameters tables.fileNames (.start u.parameters) program)
    (enough : program.length < steps) :
    parseLineTable steps sections offset =
      .ok ((rows u.parameters (.start u.parameters) program).map (named tables.fileNames)) := by
  have start : Stands ⟨sections.debugLine.bytes,before.length⟩ before (u.bytes ++ after) := ⟨placed,rfl⟩
  obtain ⟨header,parsed,describes,unitLength,sameTables⟩ := header_parsed wellFormed start read
  have whole := congrArg List.length placed
  rw [List.length_append,List.length_append,u.bytes_length] at whole
  have arrives : (ofSource sections.debugLine.bytes).skip before.length =
      some ⟨sections.debugLine.bytes,before.length⟩ := by
    have origin : Stands (ofSource sections.debugLine.bytes) [] (before ++ (u.bytes ++ after)) := ⟨placed,rfl⟩
    rw [origin.skip,ByteReader.advance,ofSource,Int.zero_add]
  have behindTables : Stands ⟨sections.debugLine.bytes,before.length + u.head.length + u.tables.length⟩
      (before ++ u.head ++ u.tables) (u.program ++ after) := by
    refine ⟨?_,by simp only [List.length_append]; omega⟩
    rw [placed,LineUnit.bytes,starts]
    simp only [List.append_assoc,List.nil_append]
  rw [← sameTables] at admitted ⊢
  have ends : (before ++ u.head ++ u.tables).length + u.program.length = before.length + 4 + u.unitLength := by
    have all := u.bytes_length
    simp only [LineUnit.bytes,starts,List.nil_append,List.length_append] at all
    simp only [List.length_append]
    omega
  have loop := loop_simulates describes (u.usable wellFormed) encoded behindTables size
    (.start header.defaultValueOfIsStmtRegister _)
    (u.usable wellFormed).maximumOperations.1 admitted enough
  rw [ends] at loop
  rw [parseLineTable,located,ok_bind]
  simp only [arrives,skipped,ok_bind,parsed,unitLength]
  rw [if_neg (by omega),if_neg (by omega),loop,ok_bind]
  simp only
  rw [if_neg]
  · rfl
  · simp only [ByteReader.advance,ne_eq,not_not]
    rw [List.length_append,List.length_append] at ends
    omega

-- One directory "/k" and one file "m" in it, listed twice.
def smallTables : List UInt8 := [1,1,8,1,0x2f,0x6b,0,2,1,8,2,0x0b,2,0x6d,0,0,0x6d,0,0]

-- The header a compiler for the kernel's machine writes.
def plainUnit : LineUnit where
  addressSize := 8
  segmentSelectorSize := 0
  minimumInstructionLength := 1
  maximumOperations := 1
  defaultIsStmt := 1
  lineBase := 0xfb
  lineRange := 14
  opcodeLengths := [0,1,1,1,1,0,0,0,1,0,0,1]
  tables := smallTables
  extra := []
  program := [0,9,2,0,0x10,0,0,0,0,0,0,33,8,1,0,1,1]

def sectionsOf (u : LineUnit) : Sections where
  debugInfo := ⟨0,[]⟩
  debugAbbrev := ⟨0,[]⟩
  debugLine := ⟨0x10000,u.bytes⟩
  debugStr := ⟨0,[]⟩
  debugLineStr := ⟨0,[]⟩
  debugStrOffsets := ⟨0,[]⟩
  debugAddr := ⟨0,[]⟩
  debugStrOffsetsBase := 0
  debugAddrBase := 0

def smallNames : Tables where
  directoryEntryFormats := [⟨.path,.string⟩]
  directories := [[0x2f,0x6b]]
  fileNameEntryFormats := [⟨.path,.string⟩,⟨.directoryIndex,.data1⟩]
  fileNames := [[0x2f,0x6b,0x2f,0x6d],[0x2f,0x6b,0x2f,0x6d]]

def plainProgram : List Instruction := [.setAddress 0x1000,.special 20,.constAddPc,.copy,.endSequence]

theorem one_encoded : Unsigned 1 [1] := ⟨rfl,by decide,rfl,by decide⟩

theorem plainProgram_encoded : EncodesProgram plainUnit.parameters plainProgram plainUnit.program :=
  have nine : Unsigned (1 + plainUnit.parameters.addressSize) [9] := ⟨rfl,by decide,rfl,by decide⟩
  have width : ([0,0x10,0,0,0,0,0,0] : List UInt8).length = plainUnit.parameters.addressSize := rfl
  .cons (.setAddress width nine) (.cons (.special (show _ ≤ (33 : UInt8).toNat by decide))
    (.cons (.constAddPc (by decide)) (.cons (.copy (by decide)) (.cons (.endSequence one_encoded) .nil))))

theorem plainProgram_admitted :
    Admitted plainUnit.parameters smallNames.fileNames (.start plainUnit.parameters) plainProgram := by
  refine ⟨⟨trivial,⟨by simp,by decide,by decide,by decide⟩,?_⟩,⟨rfl,⟨by simp,by decide,by decide,by decide⟩,?_⟩,
    ⟨⟨rfl,rfl⟩,⟨by simp,by decide,by decide,by decide⟩,?_⟩,⟨trivial,⟨by simp,by decide,by decide,by decide⟩,?_⟩,
    ⟨trivial,⟨by simp,by decide,by decide,by decide⟩,?_⟩,trivial⟩
  all_goals intro row same; cases same
  all_goals decide

theorem line_table_rows_plain : parseLineTable 6 (sectionsOf plainUnit) 0 =
    .ok ((rows plainUnit.parameters (.start plainUnit.parameters) plainProgram).map (named smallNames.fileNames)) :=
  line_table_rows plainUnit ⟨.inr rfl,by decide,by decide,by decide,by decide⟩ (sectionsOf plainUnit)
    (show (sectionsOf plainUnit).debugLine.bytes = [] ++ (plainUnit.bytes ++ []) by decide) (by decide)
    (by decide) (by decide) rfl plainProgram_encoded plainProgram_admitted (by decide)

-- Four operations to an instruction: a special opcode moves on by one
-- operation, which the code takes for a whole instruction.
def wideUnit : LineUnit := {plainUnit with
  minimumInstructionLength := 16
  maximumOperations := 4
  program := [33,0,1,1]}

def wideProgram : List Instruction := [.special 20,.endSequence]

-- The program starts one byte behind the tables.
def extraUnit : LineUnit := {wideUnit with
  minimumInstructionLength := 1
  maximumOperations := 1
  extra := [33]}

theorem line_table_rows_differ :
    (wideUnit.WellFormed ∧ EncodesProgram wideUnit.parameters wideProgram wideUnit.program ∧
      parseTables ⟨(sectionsOf wideUnit).debugLine.bytes,wideUnit.head.length⟩ 8 (sectionsOf wideUnit) = .ok (smallNames,
        ⟨(sectionsOf wideUnit).debugLine.bytes,wideUnit.head.length + wideUnit.tables.length⟩) ∧
      wideUnit.extra = [] ∧
      parseLineTable 3 (sectionsOf wideUnit) 0 ≠
        .ok ((rows wideUnit.parameters (.start wideUnit.parameters) wideProgram).map (named smallNames.fileNames))) ∧
    (extraUnit.WellFormed ∧ EncodesProgram extraUnit.parameters wideProgram extraUnit.program ∧
      parseTables ⟨(sectionsOf extraUnit).debugLine.bytes,extraUnit.head.length⟩ 8 (sectionsOf extraUnit) =
        .ok (smallNames,⟨(sectionsOf extraUnit).debugLine.bytes,extraUnit.head.length + extraUnit.tables.length⟩) ∧
      Admitted extraUnit.parameters smallNames.fileNames (.start extraUnit.parameters) wideProgram ∧
      parseLineTable 4 (sectionsOf extraUnit) 0 ≠
        .ok ((rows extraUnit.parameters (.start extraUnit.parameters) wideProgram).map
          (named smallNames.fileNames))) := by
  refine ⟨⟨⟨.inr rfl,by decide,by decide,by decide,by decide⟩,?_,by decide,rfl,by decide⟩,
    ⟨.inr rfl,by decide,by decide,by decide,by decide⟩,?_,by decide,?_,by decide⟩
  · exact .cons (.special (show _ ≤ (33 : UInt8).toNat by decide)) (.cons (.endSequence one_encoded) .nil)
  · exact .cons (.special (show _ ≤ (33 : UInt8).toNat by decide)) (.cons (.endSequence one_encoded) .nil)
  · refine ⟨⟨rfl,⟨by simp,by decide,by decide,by decide⟩,?_⟩,⟨trivial,⟨by simp,by decide,by decide,by decide⟩,?_⟩,trivial⟩
    all_goals intro row same; cases same; decide

end Dwarf
