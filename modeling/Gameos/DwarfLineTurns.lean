import Gameos.DwarfLine
import Gameos.LineProgram

namespace Dwarf
open MachineWords ByteReader LineProgram

-- The header of the code holds the parameters of the reference machine.
structure Describes (header : DebugLineHeader) (p : Parameters) : Prop where
  addressSize : header.addressSize = p.addressSize
  minimumInstructionLength : header.minimumInstructionLength = p.minimumInstructionLength
  maximumOperations : header.maximumOperationsPerInstruction = p.maximumOperations
  defaultIsStmt : header.defaultValueOfIsStmtRegister = p.defaultIsStmt
  lineBase : header.lineBase = p.lineBase
  lineRange : header.lineRange = p.lineRange
  opcodeBase : header.opcodeBase = p.opcodeBase
  opcodeLengths : ∀ i byte, p.opcodeLengths[i]? = some byte → header.standardOpcodeLengths.get (i : Nat) = .ok byte

-- What the bytes of the header fields and the target leave possible.
structure Usable (p : Parameters) : Prop where
  addressSize : p.addressSize = 4 ∨ p.addressSize = 8
  minimumInstructionLength : p.minimumInstructionLength < 256
  maximumOperations : 0 < p.maximumOperations ∧ p.maximumOperations < 256
  lineRange : 0 < p.lineRange

-- The code's registers that a row shows, and those they depend on.
structure Agrees (state : DebugLineState) (r : Registers) : Prop where
  address : state.address = r.address
  opIndex : state.opIndex = r.opIndex
  fileIndex : state.fileIndex = r.file % 2^32
  line : state.line = r.line

-- Where the code's shortcuts for the operation advance are right: special
-- opcodes and const_add_pc leave op_index out of the address, and const_add_pc
-- does not update it.
def Advances (p : Parameters) (r : Registers) : Instruction → Prop
  | .special adjusted =>
      p.minimumInstructionLength * ((r.opIndex + adjusted / p.lineRange) / p.maximumOperations) =
        p.minimumInstructionLength * (adjusted / p.lineRange)
  | .constAddPc =>
      p.minimumInstructionLength * ((r.opIndex + (255 - p.opcodeBase) / p.lineRange) / p.maximumOperations) =
        p.minimumInstructionLength * ((255 - p.opcodeBase) / p.lineRange) ∧
      (r.opIndex + (255 - p.opcodeBase) / p.lineRange) % p.maximumOperations = r.opIndex
  | _ => True

-- The numbers of a step fit the fields that hold them.
structure Fits (p : Parameters) (r : Registers) (instruction : Instruction) : Prop where
  operations : ∀ n, instruction = .advancePc n → r.opIndex + n < 2^64
  address : (execute p r instruction).1.address < 2^64
  low : -2^31 ≤ (execute p r instruction).1.line
  high : (execute p r instruction).1.line < 2^31

structure Admits (p : Parameters) (fileNames : List (List UInt8)) (r : Registers) (instruction : Instruction) :
    Prop where
  advances : Advances p r instruction
  fits : Fits p r instruction
  named : ∀ row, (execute p r instruction).2 = some row → row.file < fileNames.length ∧ row.file < 2^32

def named (fileNames : List (List UInt8)) (row : Row) : SourceRow :=
  ⟨row.address,fileNames.getD row.file [],row.line,row.endSequence⟩

theorem toS32_of_range (low : -2^31 ≤ v) (high : v < 2^31) : toS32 v = v := by
  unfold toS32; omega

theorem read_unsigned (unsigned : Unsigned n bytes) (stands : Stands reader before (bytes ++ after)) :
    reader.readUleb128 = .ok (some (n,reader.advance bytes.length)) := by
  rw [stands.readUleb128 unsigned.whole unsigned.short (by rw [unsigned.same]; exact unsigned.fits),unsigned.same]

theorem read_signed (signed : Signed n bytes) (stands : Stands reader before (bytes ++ after)) :
    reader.readSleb128 = .ok (some (n,reader.advance bytes.length)) := by
  have same := signed.same
  subst same
  exact stands.readSleb128 signed.whole signed.short signed.low signed.high

theorem asserted_ok (message : String) (value : α) : asserted message (.ok (some value)) = .ok value := rfl

theorem row_named {header : DebugLineHeader} {state : DebugLineState} {r : Registers}
    (agrees : Agrees state r) (present : r.file < header.tables.fileNames.length) (narrow : r.file < 2^32)
    (endSequence : Bool) :
    row header state endSequence = .ok (named header.tables.fileNames (r.row endSequence)) := by
  have index : state.fileIndex = r.file := by rw [agrees.fileIndex,Nat.mod_eq_of_lt narrow]
  rw [row,index,element,List.getElem?_eq_getElem present]
  simp only [ok_bind,agrees.address,agrees.line,named,Registers.row,List.getD_eq_getElem _ _ present]
  rfl

theorem divide_positive (dividend : Nat) (positive : 0 < divisor) :
    divide dividend divisor = .ok (dividend / divisor,dividend % divisor) := by
  rw [divide,if_neg (by omega)]

section
variable {header : DebugLineHeader} {state : DebugLineState} {p : Parameters} {r : Registers} {reader : ByteReader}

-- A turn of the code and the same instruction of the reference machine.
def Simulates (header : DebugLineHeader) (state : DebugLineState) (reader : ByteReader) (p : Parameters)
    (r : Registers) (instruction : Instruction) (consumed : Nat) : Prop :=
  ∃ state', lineTurn header state reader =
      .ok (state',(execute p r instruction).2.map (named header.tables.fileNames),reader.advance consumed) ∧
    Agrees state' (execute p r instruction).1

theorem turn_standard (n : Nat) (describes : Describes header p) (stands : Stands reader before (opcode :: after))
    (code : opcode.toNat = n) (nonzero : n ≠ 0) (below : n < p.opcodeBase) :
    lineTurn header state reader = standardOpcode header n state (reader.advance 1) := by
  subst code
  rw [lineTurn,stands.readU8,asserted_ok,ok_bind]
  simp only [if_neg nonzero,describes.opcodeBase,if_pos below]

theorem turn_special (describes : Describes header p) (stands : Stands reader before (opcode :: after))
    (above : p.opcodeBase ≤ opcode.toNat) :
    lineTurn header state reader = specialOpcode header opcode.toNat state (reader.advance 1) := by
  have nonzero : opcode.toNat ≠ 0 := by rw [Parameters.opcodeBase] at above; omega
  rw [lineTurn,stands.readU8,asserted_ok,ok_bind]
  simp only [if_neg nonzero,describes.opcodeBase,if_neg (Nat.not_lt.mpr above)]

-- Behind the length and the opcode of an extended instruction.
theorem turn_extended (header : DebugLineHeader) (state : DebugLineState)
    (stands : Stands reader before (0 :: (length ++ opcode :: after)))
    (announced : Unsigned n length) :
    Stands (reader.advance (length.length + 2 : Nat)) (before ++ [0] ++ length ++ [opcode]) after ∧
    lineTurn header state reader =
      extendedAction header n state (reader.advance (length.length + 2 : Nat)) (castExtendedOpcode opcode.toNat) := by
  have behind := stands.advance_one
  have next : Stands ((reader.advance 1).advance length.length) (before ++ [0] ++ length) (opcode :: after) :=
    behind.advance
  have count : (1 : Int) + (length.length + 1) = (length.length + 2 : Nat) := by omega
  constructor
  · have last := next.advance_one
    rwa [advance_advance,advance_advance,count] at last
  · rw [lineTurn,stands.readU8,asserted_ok,ok_bind]
    simp only [show (0 : UInt8).toNat = 0 from rfl,if_true]
    rw [extendedOpcode,read_unsigned announced behind,asserted_ok,ok_bind]
    simp only
    rw [next.readU8,asserted_ok,ok_bind,advance_advance,advance_advance,count]

theorem Agrees.start (isStmt : Bool) (p : Parameters) : Agrees (.ofDefault isStmt) (.start p) := ⟨rfl,rfl,rfl,rfl⟩

theorem simulates_special (describes : Describes header p) (usable : Usable p)
    (above : p.opcodeBase ≤ opcode.toNat) (stands : Stands reader before (opcode :: after)) (agrees : Agrees state r)
    (bounded : r.opIndex < p.maximumOperations)
    (admits : Admits p header.tables.fileNames r (.special (opcode.toNat - p.opcodeBase))) :
    Simulates header state reader p r (.special (opcode.toNat - p.opcodeBase)) 1 := by
  have byte := opcode.toNat_lt
  have small : (opcode.toNat - p.opcodeBase) / p.lineRange ≤ opcode.toNat - p.opcodeBase := Nat.div_le_self _ _
  have sum : add64 r.opIndex ((opcode.toNat - p.opcodeBase) / p.lineRange) =
      r.opIndex + (opcode.toNat - p.opcodeBase) / p.lineRange := add64_of_lt (by have := usable.maximumOperations; omega)
  have shortcut := admits.advances
  have fits := admits.fits
  have moved : r.address + p.minimumInstructionLength * ((opcode.toNat - p.opcodeBase) / p.lineRange) < 2^64 := by
    rw [← shortcut]; exact fits.address
  obtain ⟨present,narrow⟩ := admits.named _ rfl
  rw [Simulates,turn_special describes stands above,specialOpcode,describes.opcodeBase,describes.lineRange,
    describes.maximumOperations,describes.minimumInstructionLength,describes.lineBase,agrees.opIndex,
    divide_positive _ usable.lineRange,agrees.address,agrees.line]
  simp only [ok_bind,sum,divide_positive _ usable.maximumOperations.1]
  have line : toS32 (r.line + (p.lineBase + ((opcode.toNat - p.opcodeBase) % p.lineRange : Nat))) =
      r.line + (p.lineBase + ((opcode.toNat - p.opcodeBase) % p.lineRange : Nat)) :=
    toS32_of_range fits.low fits.high
  rw [line,Nat.mul_comm _ p.minimumInstructionLength,add64_of_lt moved,← shortcut]
  have after_agrees : Agrees {state with
      address := r.address + p.minimumInstructionLength *
        ((r.opIndex + (opcode.toNat - p.opcodeBase) / p.lineRange) / p.maximumOperations)
      line := r.line + (p.lineBase + ((opcode.toNat - p.opcodeBase) % p.lineRange : Nat))
      opIndex := (r.opIndex + (opcode.toNat - p.opcodeBase) / p.lineRange) % p.maximumOperations}
      (execute p r (.special (opcode.toNat - p.opcodeBase))).1 := ⟨rfl,rfl,agrees.fileIndex,rfl⟩
  have shown := row_named after_agrees present narrow false
  rw [shown,ok_bind]
  exact ⟨_,rfl,after_agrees⟩

theorem simulates_copy (describes : Describes header p) (below : 1 < p.opcodeBase)
    (stands : Stands reader before (1 :: after)) (agrees : Agrees state r)
    (admits : Admits p header.tables.fileNames r .copy) : Simulates header state reader p r .copy 1 := by
  obtain ⟨present,narrow⟩ := admits.named _ rfl
  have cleared : Agrees {state with
      basicBlock := false
      prologueEnd := false
      epilogueBegin := false
      discriminator := 0} r := ⟨agrees.address,agrees.opIndex,agrees.fileIndex,agrees.line⟩
  rw [Simulates,turn_standard 1 describes stands rfl (by decide) below,standardOpcode]
  simp only [row_named cleared present narrow,ok_bind]
  exact ⟨_,rfl,agrees.address,agrees.opIndex,agrees.fileIndex,agrees.line⟩

theorem simulates_advancePc (describes : Describes header p) (usable : Usable p) (below : 2 < p.opcodeBase)
    (operand : Unsigned n bytes) (stands : Stands reader before (2 :: (bytes ++ after))) (agrees : Agrees state r)
    (admits : Admits p header.tables.fileNames r (.advancePc n)) :
    Simulates header state reader p r (.advancePc n) (1 + bytes.length) := by
  have fits : r.address + p.minimumInstructionLength * ((r.opIndex + n) / p.maximumOperations) < 2^64 :=
    admits.fits.address
  have product : mul64 p.minimumInstructionLength ((r.opIndex + n) / p.maximumOperations) =
      p.minimumInstructionLength * ((r.opIndex + n) / p.maximumOperations) := Nat.mod_eq_of_lt (by omega)
  rw [Simulates,turn_standard 2 describes stands rfl (by decide) below,standardOpcode,
    read_unsigned operand stands.advance_one,asserted_ok,ok_bind]
  simp only [agrees.opIndex,add64_of_lt (admits.fits.operations n rfl),describes.maximumOperations,
    describes.minimumInstructionLength,divide_positive _ usable.maximumOperations.1,ok_bind,agrees.address,product,
    add64_of_lt fits,advance_advance]
  exact ⟨_,rfl,rfl,rfl,agrees.fileIndex,agrees.line⟩

theorem simulates_advanceLine (describes : Describes header p) (below : 3 < p.opcodeBase)
    (operand : Signed n bytes) (stands : Stands reader before (3 :: (bytes ++ after))) (agrees : Agrees state r)
    (admits : Admits p header.tables.fileNames r (.advanceLine n)) :
    Simulates header state reader p r (.advanceLine n) (1 + bytes.length) := by
  have line : toS32 (r.line + n) = r.line + n := toS32_of_range admits.fits.low admits.fits.high
  rw [Simulates,turn_standard 3 describes stands rfl (by decide) below,standardOpcode,
    read_signed operand stands.advance_one,asserted_ok,ok_bind]
  simp only [agrees.line,line,advance_advance]
  exact ⟨_,rfl,agrees.address,agrees.opIndex,agrees.fileIndex,rfl⟩

-- The opcodes with one operand that go to a register of 32 bits.
theorem simulates_operand (change : Nat → DebugLineState) (describes : Describes header p) (operand : Unsigned n bytes)
    (stands : Stands reader before (opcode :: (bytes ++ after))) (code : opcode.toNat = m) (nonzero : m ≠ 0)
    (below : m < p.opcodeBase)
    (body : ∀ reader', standardOpcode header m state reader' = (do
      let (value,reader') ← asserted message reader'.readUleb128
      return (change value,none,reader')))
    (silent : (execute p r instruction).2 = none) (agrees : Agrees (change n) (execute p r instruction).1) :
    Simulates header state reader p r instruction (1 + bytes.length) := by
  rw [Simulates,turn_standard m describes stands code nonzero below,body,read_unsigned operand stands.advance_one,
    asserted_ok,ok_bind,silent,advance_advance]
  exact ⟨_,rfl,agrees⟩

-- The opcodes that only set a flag.
theorem simulates_flag (state' : DebugLineState) (describes : Describes header p) (stands : Stands reader before (opcode :: after))
    (code : opcode.toNat = m) (nonzero : m ≠ 0) (below : m < p.opcodeBase)
    (body : ∀ reader', standardOpcode header m state reader' = .ok (state',none,reader'))
    (silent : (execute p r instruction).2 = none) (agrees : Agrees state' (execute p r instruction).1) :
    Simulates header state reader p r instruction 1 := by
  rw [Simulates,turn_standard m describes stands code nonzero below,body,silent]
  exact ⟨_,rfl,agrees⟩

theorem simulates_constAddPc (describes : Describes header p) (usable : Usable p) (below : 8 < p.opcodeBase)
    (stands : Stands reader before (8 :: after)) (agrees : Agrees state r)
    (admits : Admits p header.tables.fileNames r .constAddPc) :
    Simulates header state reader p r .constAddPc 1 := by
  have fits : r.address + p.minimumInstructionLength *
      ((r.opIndex + (255 - p.opcodeBase) / p.lineRange) / p.maximumOperations) < 2^64 := admits.fits.address
  obtain ⟨shortcut,still⟩ := admits.advances
  rw [shortcut] at fits
  refine simulates_flag (m:=8) {state with
    address := r.address + p.minimumInstructionLength * ((255 - p.opcodeBase) / p.lineRange)}
    describes stands rfl (by decide) below ?_ rfl ⟨?_,?_,agrees.fileIndex,agrees.line⟩
  · intro reader'
    rw [standardOpcode,describes.opcodeBase,describes.lineRange,divide_positive _ usable.lineRange,ok_bind,
      describes.minimumInstructionLength,agrees.address]
    simp only [Nat.mul_comm _ p.minimumInstructionLength,add64_of_lt fits]
    rfl
  · rw [← shortcut]; rfl
  · rw [show state.opIndex = r.opIndex from agrees.opIndex]
    exact still.symm

theorem simulates_fixedAdvancePc (describes : Describes header p) (below : 9 < p.opcodeBase)
    (width : bytes.length = 2) (stands : Stands reader before (9 :: (bytes ++ after))) (agrees : Agrees state r)
    (admits : Admits p header.tables.fileNames r (.fixedAdvancePc (littleEndian bytes))) :
    Simulates header state reader p r (.fixedAdvancePc (littleEndian bytes)) (1 + bytes.length) := by
  have fits : r.address + littleEndian bytes < 2^64 := admits.fits.address
  rw [Simulates,turn_standard 9 describes stands rfl (by decide) below,standardOpcode,readU16,
    stands.advance_one.readLittleEndian width,asserted_ok,ok_bind]
  simp only [agrees.address,add64_of_lt fits,advance_advance]
  exact ⟨_,rfl,rfl,rfl,agrees.fileIndex,agrees.line⟩

theorem skip_operands (operands : Operands values bytes) (stands : Stands reader before (bytes ++ after)) :
    skipOperands values.length reader = .ok (reader.advance bytes.length) := by
  induction operands generalizing reader before with
  | nil =>
      rw [List.length_nil,skipOperands,ByteReader.advance,List.length_nil,Int.natCast_zero,Int.add_zero]; rfl
  | cons first _ ih =>
      rw [List.append_assoc] at stands
      rw [List.length_cons,skipOperands,read_unsigned first stands,asserted_ok,ok_bind]
      simp only
      rw [ih stands.advance,advance_advance,List.length_append,Int.natCast_add]

theorem castStandardOpcode_unknown (unknown : 12 < opcode) : castStandardOpcode opcode = .other opcode := by
  unfold castStandardOpcode
  split
  all_goals first | omega | rfl

theorem simulates_vendor (describes : Describes header p) (unknown : 12 < opcode.toNat)
    (below : opcode.toNat < p.opcodeBase) (listed : p.opcodeLengths[opcode.toNat - 1]? = some count)
    (counted : operands.length = count.toNat) (encoded : Operands operands bytes)
    (stands : Stands reader before (opcode :: (bytes ++ after))) (agrees : Agrees state r) :
    Simulates header state reader p r (.vendor opcode operands) (1 + bytes.length) := by
  have length := describes.opcodeLengths _ _ listed
  rw [Simulates,turn_standard opcode.toNat describes stands rfl (by omega) below]
  simp only [standardOpcode,castStandardOpcode_unknown unknown]
  rw [show ((opcode.toNat : Int) - 1) = (opcode.toNat - 1 : Nat) by omega,length,ok_bind,← counted,
    skip_operands encoded stands.advance_one,ok_bind,advance_advance]
  exact ⟨_,rfl,agrees⟩

theorem simulates_endSequence (announced : Unsigned 1 length)
    (stands : Stands reader before (0 :: (length ++ 1 :: after))) (agrees : Agrees state r)
    (admits : Admits p header.tables.fileNames r .endSequence) :
    Simulates header state reader p r .endSequence (length.length + 2) := by
  obtain ⟨present,narrow⟩ := admits.named _ rfl
  have ended : Agrees {state with endSequence := true} r :=
    ⟨agrees.address,agrees.opIndex,agrees.fileIndex,agrees.line⟩
  rw [Simulates,(turn_extended header state stands announced).2,show castExtendedOpcode (1 : UInt8).toNat = .endSequence from rfl,
    extendedAction,if_pos rfl]
  simp only [row_named ended present narrow,ok_bind]
  exact ⟨_,rfl,.start _ _⟩

theorem simulates_setAddress (describes : Describes header p) (usable : Usable p)
    (width : bytes.length = p.addressSize) (announced : Unsigned (1 + p.addressSize) length)
    (stands : Stands reader before (0 :: (length ++ 2 :: (bytes ++ after)))) (agrees : Agrees state r) :
    Simulates header state reader p r (.setAddress (littleEndian bytes)) (length.length + 2 + bytes.length) := by
  obtain ⟨behind,turn⟩ := turn_extended header state stands announced
  have nothing : toS64 (sub64 (sub64 (1 + p.addressSize) p.addressSize) 1) = 0 := by
    have small := announced.fits
    rw [sub64_of_le (by omega) small,Nat.add_sub_cancel,sub64_of_le (by omega) (by omega)]
    exact toS64_of_range (by omega) (by omega)
  have left := behind.advance
  have stays : ((reader.advance (length.length + 2 : Nat)).advance bytes.length).skip 0 =
      some (reader.advance (length.length + 2 + bytes.length : Nat)) := by
    have still : Stands ((reader.advance (length.length + 2 : Nat)).advance bytes.length)
        (before ++ [0] ++ length ++ [2] ++ bytes) ([] ++ after) := left
    have none := still.skip
    rw [List.length_nil,Int.natCast_zero,advance_advance,advance_advance] at none
    rw [advance_advance,none,Int.add_zero,← Int.natCast_add]
  have address : readAddress header.addressSize (reader.advance (length.length + 2 : Nat)) =
      .ok (littleEndian bytes,(reader.advance (length.length + 2 : Nat)).advance bytes.length) := by
    rw [readAddress,describes.addressSize]
    rcases usable.addressSize with four | eight
    · rw [if_pos four,readU32,behind.readLittleEndian (width.trans four),asserted_ok]
    · rw [if_neg (by omega),if_pos eight,readU64,behind.readLittleEndian (width.trans eight),asserted_ok]
  rw [Simulates,turn,show castExtendedOpcode (2 : UInt8).toNat = .setAddress from rfl,extendedAction,address,ok_bind,
    describes.addressSize]
  show ∃ state', (skipped "skip_ok" (((reader.advance (length.length + 2 : Nat)).advance bytes.length).skip
    (toS64 (sub64 (sub64 (1 + p.addressSize) p.addressSize) 1))) >>= _) = _ ∧ _
  rw [nothing,stays]
  exact ⟨_,rfl,rfl,rfl,agrees.fileIndex,agrees.line⟩

theorem castExtendedOpcode_unknown (notEnd : opcode ≠ 1) (notAddress : opcode ≠ 2) :
    castExtendedOpcode opcode = .other opcode := by
  unfold castExtendedOpcode
  split
  all_goals first | contradiction | rfl

-- Every other extended opcode is skipped by the length it announces.
theorem simulates_skipped (payload : List UInt8) (announced : Unsigned (1 + payload.length) length)
    (notEnd : opcode.toNat ≠ 1) (notAddress : opcode.toNat ≠ 2)
    (stands : Stands reader before (0 :: (length ++ opcode :: (payload ++ after))))
    (silent : (execute p r instruction).2 = none) (agrees : Agrees state (execute p r instruction).1)
    (narrow : payload.length < 2^63) :
    Simulates header state reader p r instruction (length.length + 2 + payload.length) := by
  obtain ⟨behind,turn⟩ := turn_extended header state stands announced
  have count : toS64 (sub64 (1 + payload.length) 1) = payload.length := by
    rw [sub64_of_le (by omega) announced.fits,toS64_of_range (by omega) (by omega)]; omega
  rw [Simulates,turn,castExtendedOpcode_unknown notEnd notAddress,extendedAction,count,behind.skip,skipped,ok_bind,silent,advance_advance,← Int.natCast_add]
  exact ⟨_,rfl,agrees⟩

-- No operation advance of a byte moves the address far enough to wrap back.
theorem Usable.moves (usable : Usable p) (bounded : opIndex < p.maximumOperations) (small : n ≤ 255) :
    p.minimumInstructionLength * ((opIndex + n) / p.maximumOperations) ≤ 255 * 256 ∧
    n * p.minimumInstructionLength ≤ 255 * 255 := by
  have byte := usable.minimumInstructionLength
  refine ⟨Nat.mul_le_mul (by omega) ?_,Nat.mul_le_mul small (by omega)⟩
  have room : opIndex + n ≤ p.maximumOperations * 256 := by omega
  have quotient := Nat.div_le_div_right (c:=p.maximumOperations) room
  rwa [Nat.mul_div_cancel_left _ usable.maximumOperations.1] at quotient

-- The shortcut of a special opcode is right only where `Advances` says so.
theorem special_advances (describes : Describes header p) (usable : Usable p) (above : p.opcodeBase ≤ opcode.toNat)
    (stands : Stands reader before (opcode :: after)) (agrees : Agrees state r)
    (bounded : r.opIndex < p.maximumOperations) (fits : Fits p r (.special (opcode.toNat - p.opcodeBase)))
    (simulates : Simulates header state reader p r (.special (opcode.toNat - p.opcodeBase)) 1) :
    Advances p r (.special (opcode.toNat - p.opcodeBase)) := by
  have byte := opcode.toNat_lt
  have small : (opcode.toNat - p.opcodeBase) / p.lineRange ≤ opcode.toNat - p.opcodeBase := Nat.div_le_self _ _
  have address : r.address + p.minimumInstructionLength *
      ((r.opIndex + (opcode.toNat - p.opcodeBase) / p.lineRange) / p.maximumOperations) < 2^64 := fits.address
  obtain ⟨state',turned,agrees'⟩ := simulates
  rw [turn_special describes stands above,specialOpcode,describes.opcodeBase,describes.lineRange,
    divide_positive _ usable.lineRange,ok_bind,describes.maximumOperations,
    describes.minimumInstructionLength] at turned
  simp only [divide_positive _ usable.maximumOperations.1,ok_bind] at turned
  obtain ⟨shown,_,moved⟩ := ok_of_bind turned
  have moves := congrArg DebugLineState.address (congrArg Prod.fst (Except.ok.inj moved))
  have same := moves.trans agrees'.address
  simp only [agrees.address,add64,execute,Registers.advance,Registers.afterRow] at same
  obtain ⟨one,two⟩ := usable.moves bounded (show (opcode.toNat - p.opcodeBase) / p.lineRange ≤ 255 by omega)
  rw [Advances,Nat.mul_comm _ ((opcode.toNat - p.opcodeBase) / p.lineRange)]
  omega

theorem constAddPc_advances (describes : Describes header p) (usable : Usable p) (below : 8 < p.opcodeBase)
    (stands : Stands reader before (8 :: after)) (agrees : Agrees state r)
    (bounded : r.opIndex < p.maximumOperations) (fits : Fits p r .constAddPc)
    (simulates : Simulates header state reader p r .constAddPc 1) : Advances p r .constAddPc := by
  have small : (255 - p.opcodeBase) / p.lineRange ≤ 255 - p.opcodeBase := Nat.div_le_self _ _
  have address : r.address + p.minimumInstructionLength *
      ((r.opIndex + (255 - p.opcodeBase) / p.lineRange) / p.maximumOperations) < 2^64 := fits.address
  obtain ⟨state',turned,agrees'⟩ := simulates
  rw [turn_standard 8 describes stands rfl (by decide) below,standardOpcode,
    show castStandardOpcode 8 = .constAddPc from rfl] at turned
  simp only [describes.opcodeBase,describes.lineRange,divide_positive _ usable.lineRange,ok_bind,
    describes.minimumInstructionLength] at turned
  have after := congrArg Prod.fst (Except.ok.inj turned)
  have same := (congrArg DebugLineState.address after).trans agrees'.address
  have still := (congrArg DebugLineState.opIndex after).trans agrees'.opIndex
  simp only [agrees.address,agrees.opIndex,add64,execute,Registers.advance] at same still
  obtain ⟨one,two⟩ := usable.moves bounded (show (255 - p.opcodeBase) / p.lineRange ≤ 255 by omega)
  refine ⟨?_,still.symm⟩
  rw [Nat.mul_comm _ ((255 - p.opcodeBase) / p.lineRange)]
  omega

end

end Dwarf
