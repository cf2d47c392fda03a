import Gameos.ByteReader

namespace LineProgram

-- The header fields that give the opcodes of a line-number program their meaning.
structure Parameters where
  addressSize : Nat
  minimumInstructionLength : Nat
  maximumOperations : Nat
  defaultIsStmt : Bool
  lineBase : Int
  lineRange : Nat
  opcodeLengths : List UInt8
deriving DecidableEq, Repr

def Parameters.opcodeBase (p : Parameters) : Nat := p.opcodeLengths.length + 1

structure Registers where
  address : Nat
  opIndex : Nat
  file : Nat
  line : Int
  column : Nat
  isStmt : Bool
  basicBlock : Bool
  prologueEnd : Bool
  epilogueBegin : Bool
  isa : Nat
  discriminator : Nat
deriving DecidableEq, Repr

def Registers.start (p : Parameters) : Registers := ⟨0,0,1,1,0,p.defaultIsStmt,false,false,false,0,0⟩

structure Row where
  address : Nat
  file : Nat
  line : Int
  endSequence : Bool
deriving DecidableEq, Repr

inductive Instruction where
  | special (adjusted : Nat)
  | copy
  | advancePc (operationAdvance : Nat)
  | advanceLine (lineAdvance : Int)
  | setFile (file : Nat)
  | setColumn (column : Nat)
  | negateStmt
  | setBasicBlock
  | constAddPc
  | fixedAdvancePc (addressAdvance : Nat)
  | setPrologueEnd
  | setEpilogueBegin
  | setIsa (isa : Nat)
  -- a standard opcode that this machine does not know, with its operands
  | vendor (opcode : UInt8) (operands : List Nat)
  | endSequence
  | setAddress (address : Nat)
  | setDiscriminator (discriminator : Nat)
  | extended (opcode : UInt8) (payload : List UInt8)
deriving DecidableEq, Repr

-- The one computation behind special opcodes, advance_pc and const_add_pc.
def Registers.advance (p : Parameters) (r : Registers) (operationAdvance : Nat) : Registers :=
  {r with
    address := r.address + p.minimumInstructionLength * ((r.opIndex + operationAdvance) / p.maximumOperations)
    opIndex := (r.opIndex + operationAdvance) % p.maximumOperations}

def Registers.row (r : Registers) (endSequence : Bool) : Row := ⟨r.address,r.file,r.line,endSequence⟩

def Registers.afterRow (r : Registers) : Registers :=
  {r with
    discriminator := 0
    basicBlock := false
    prologueEnd := false
    epilogueBegin := false}

def execute (p : Parameters) (r : Registers) : Instruction → Registers × Option Row
  | .special adjusted =>
      let moved := r.advance p (adjusted / p.lineRange)
      let moved := {moved with line := moved.line + (p.lineBase + (adjusted % p.lineRange : Nat))}
      (moved.afterRow,some (moved.row false))
  | .copy => (r.afterRow,some (r.row false))
  | .advancePc operationAdvance => (r.advance p operationAdvance,none)
  | .advanceLine lineAdvance => ({r with line := r.line + lineAdvance},none)
  | .setFile file => ({r with file := file},none)
  | .setColumn column => ({r with column := column},none)
  | .negateStmt => ({r with isStmt := !r.isStmt},none)
  | .setBasicBlock => ({r with basicBlock := true},none)
  | .constAddPc => (r.advance p ((255 - p.opcodeBase) / p.lineRange),none)
  | .fixedAdvancePc addressAdvance => ({r with address := r.address + addressAdvance,opIndex := 0},none)
  | .setPrologueEnd => ({r with prologueEnd := true},none)
  | .setEpilogueBegin => ({r with epilogueBegin := true},none)
  | .setIsa isa => ({r with isa := isa},none)
  | .vendor _ _ => (r,none)
  | .endSequence => (.start p,some (r.row true))
  | .setAddress address => ({r with address := address,opIndex := 0},none)
  | .setDiscriminator discriminator => ({r with discriminator := discriminator},none)
  | .extended _ _ => (r,none)

def rows (p : Parameters) : Registers → List Instruction → List Row
  | _, [] => []
  | r, instruction :: program => (execute p r instruction).2.toList ++ rows p (execute p r instruction).1 program

-- Numbers of at most 64 bits, padded to at most ten bytes.
structure Unsigned (value : Nat) (bytes : List UInt8) : Prop where
  whole : Leb128.terminated bytes = true
  short : bytes.length ≤ 10
  same : Leb128.unsignedValue bytes = value
  fits : value < 2^64

structure Signed (value : Int) (bytes : List UInt8) : Prop where
  whole : Leb128.terminated bytes = true
  short : bytes.length ≤ 10
  same : Leb128.signedValue bytes = value
  low : -2^63 ≤ value
  high : value < 2^63

inductive Operands : List Nat → List UInt8 → Prop where
  | nil : Operands [] []
  | cons : Unsigned value bytes → Operands values rest → Operands (value :: values) (bytes ++ rest)

-- The bytes of an instruction. A standard opcode exists where it is below the
-- opcode base; an extended one announces its own length.
inductive Encodes (p : Parameters) : Instruction → List UInt8 → Prop where
  | special : p.opcodeBase ≤ opcode.toNat → Encodes p (.special (opcode.toNat - p.opcodeBase)) [opcode]
  | copy : 1 < p.opcodeBase → Encodes p .copy [1]
  | advancePc : 2 < p.opcodeBase → Unsigned n bytes → Encodes p (.advancePc n) (2 :: bytes)
  | advanceLine : 3 < p.opcodeBase → Signed n bytes → Encodes p (.advanceLine n) (3 :: bytes)
  | setFile : 4 < p.opcodeBase → Unsigned n bytes → Encodes p (.setFile n) (4 :: bytes)
  | setColumn : 5 < p.opcodeBase → Unsigned n bytes → Encodes p (.setColumn n) (5 :: bytes)
  | negateStmt : 6 < p.opcodeBase → Encodes p .negateStmt [6]
  | setBasicBlock : 7 < p.opcodeBase → Encodes p .setBasicBlock [7]
  | constAddPc : 8 < p.opcodeBase → Encodes p .constAddPc [8]
  | fixedAdvancePc : 9 < p.opcodeBase → bytes.length = 2 →
      Encodes p (.fixedAdvancePc (ByteReader.littleEndian bytes)) (9 :: bytes)
  | setPrologueEnd : 10 < p.opcodeBase → Encodes p .setPrologueEnd [10]
  | setEpilogueBegin : 11 < p.opcodeBase → Encodes p .setEpilogueBegin [11]
  | setIsa : 12 < p.opcodeBase → Unsigned n bytes → Encodes p (.setIsa n) (12 :: bytes)
  | vendor : 12 < opcode.toNat → opcode.toNat < p.opcodeBase →
      p.opcodeLengths[opcode.toNat - 1]? = some count → operands.length = count.toNat → Operands operands bytes →
      Encodes p (.vendor opcode operands) (opcode :: bytes)
  | endSequence : Unsigned 1 length → Encodes p .endSequence (0 :: (length ++ [1]))
  | setAddress : bytes.length = p.addressSize → Unsigned (1 + p.addressSize) length →
      Encodes p (.setAddress (ByteReader.littleEndian bytes)) (0 :: (length ++ 2 :: bytes))
  | setDiscriminator : Unsigned n bytes → Unsigned (1 + bytes.length) length →
      Encodes p (.setDiscriminator n) (0 :: (length ++ 4 :: bytes))
  | extended : opcode ≠ 1 → opcode ≠ 2 → opcode ≠ 4 → Unsigned (1 + payload.length) length →
      Encodes p (.extended opcode payload) (0 :: (length ++ opcode :: payload))

inductive EncodesProgram (p : Parameters) : List Instruction → List UInt8 → Prop where
  | nil : EncodesProgram p [] []
  | cons : Encodes p instruction bytes → EncodesProgram p program rest →
      EncodesProgram p (instruction :: program) (bytes ++ rest)

theorem Encodes.positive (encodes : Encodes p instruction bytes) : 0 < bytes.length := by
  cases encodes <;> simp

theorem EncodesProgram.length_le (encodes : EncodesProgram p program bytes) : program.length ≤ bytes.length := by
  induction encodes with
  | nil => exact Nat.le_refl _
  | cons first _ ih =>
      have positive := first.positive
      rw [List.length_cons,List.length_append]
      omega

end LineProgram
