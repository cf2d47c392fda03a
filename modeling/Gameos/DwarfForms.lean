import Gameos.ByteReader

namespace Dwarf
open MachineWords ByteReader

-- The bytes of a section and where they lie in memory.
structure Section where
  address : Nat
  bytes : List UInt8
deriving DecidableEq, Repr

structure Sections where
  debugInfo : Section
  debugAbbrev : Section
  debugLine : Section
  debugStr : Section
  debugLineStr : Section
  debugStrOffsets : Section
  debugAddr : Section
  debugStrOffsetsBase : Nat
  debugAddrBase : Nat
deriving DecidableEq, Repr

inductive Form where
  | addr | block2 | block4 | data2 | data4 | data8 | string | block | block1 | data1 | flag | sdata | strp | udata
  | refAddr | ref1 | ref2 | ref4 | ref8 | refUdata | indirect | secOffset | exprloc | flagPresent | strx | addrx
  | refSup4 | strpSup | data16 | lineStrp | refSig8 | implicitConst | loclistx | rnglistx | refSup8
  | strx1 | strx2 | strx3 | strx4 | addrx1 | addrx2 | addrx3 | addrx4
  -- any other value cast to the enumeration
  | other (value : Nat)
deriving DecidableEq, Repr

-- The enumerators from 0x01 on; 0x02 is not one.
def forms : List Form := [.other 0,.addr,.other 2,.block2,.block4,.data2,.data4,.data8,.string,.block,.block1,.data1,
  .flag,.sdata,.strp,.udata,.refAddr,.ref1,.ref2,.ref4,.ref8,.refUdata,.indirect,.secOffset,.exprloc,.flagPresent,
  .strx,.addrx,.refSup4,.strpSup,.data16,.lineStrp,.refSig8,.implicitConst,.loclistx,.rnglistx,.refSup8,
  .strx1,.strx2,.strx3,.strx4,.addrx1,.addrx2,.addrx3,.addrx4]

def castForm (value : Nat) : Form := forms.getD value (.other value)

-- Attribute_Value: its kind with the member of the union that goes with it.
inductive AttributeValue where
  | none
  | unsigned (value : Nat)
  | signed (value : Int)
  | string (value : List UInt8)
  | block (value : View)
  | flag (value : Nat)
deriving DecidableEq, Repr

def normalizeSectionOffset (sect : Section) (rawOffset : Nat) : Except Failure Nat := do
  if rawOffset ≤ sect.bytes.length then return rawOffset
  -- the relocation was resolved to an address
  if rawOffset < sect.address then throw (.asserted "dwarf: section offset out of range")
  let offset := rawOffset - sect.address
  if sect.bytes.length < offset then throw (.asserted "dwarf: section offset out of range")
  return offset

def readSectionString (sect : Section) (offset : Nat) : Except Failure (List UInt8) := do
  let sectionOffset ← normalizeSectionOffset sect offset
  let (text,_) ← asserted "dwarf: unterminated string in .debug_str/.debug_line_str"
    (ofSource (sect.bytes.drop sectionOffset)).readCstring
  return text

-- The reader of an index table, in front of its entry; the sum is one of u64.
def entryAt (sect : Section) (base index width : Nat) (message : String) : Except Failure ByteReader := do
  let sectionOffset ← normalizeSectionOffset sect (base % 2^32)
  match (ofSource sect.bytes).skip (toS64 (add64 sectionOffset (mul64 index width))) with
  | some reader => return reader
  | none => throw (.asserted message)

def resolveStrx (debugStrOffsets debugStr : Section) (strOffsetsBase index : Nat) : Except Failure (List UInt8) := do
  let reader ← entryAt debugStrOffsets strOffsetsBase index 4 "dwarf: strx index out of range"
  let (strOffset,_) ← asserted "str_offset_ok" reader.readU32
  readSectionString debugStr strOffset

def resolveAddrx (debugAddr : Section) (addressSize : Nat) (addrBase index : Nat) : Except Failure Nat := do
  let reader ← entryAt debugAddr addrBase index addressSize "dwarf: addrx index out of range"
  let (address,_) ← asserted "ok" (if addressSize = 8 then reader.readU64 else reader.readU32)
  return address

-- A value of a fixed number of bytes, and a block behind its length.
def readUnsigned (width : Nat) (reader : ByteReader) : Except Failure (AttributeValue × ByteReader) := do
  let (value,reader) ← asserted "ok" (reader.readLittleEndian width)
  return (.unsigned value,reader)

def readBlock (length : Except Failure (ReadResult Nat)) : Except Failure (AttributeValue × ByteReader) := do
  let (length,reader) ← asserted "length_ok" length
  let (bytes,reader) ← asserted "bytes_ok" (.ok (reader.readBytes (toS64 length)))
  return (.block bytes,reader)

def readStrx (sections : Sections) (index : Except Failure (ReadResult Nat)) :
    Except Failure (AttributeValue × ByteReader) := do
  let (index,reader) ← asserted "ok" index
  let text ← resolveStrx sections.debugStrOffsets sections.debugStr sections.debugStrOffsetsBase index
  return (.string text,reader)

def readAddrx (sections : Sections) (addressSize : Nat) (index : Except Failure (ReadResult Nat)) :
    Except Failure (AttributeValue × ByteReader) := do
  let (index,reader) ← asserted "ok" index
  let address ← resolveAddrx sections.debugAddr addressSize sections.debugAddrBase index
  return (.unsigned address,reader)

-- A value that is consumed and dropped.
def readIgnored (value : Except Failure (ReadResult Nat)) : Except Failure (AttributeValue × ByteReader) := do
  let (_,reader) ← asserted "ok" value
  return (.none,reader)

def readStrp (sect : Section) (reader : ByteReader) : Except Failure (AttributeValue × ByteReader) := do
  let (offset,reader) ← asserted "ok" reader.readU32
  let normalizedOffset ← normalizeSectionOffset sect offset
  let text ← readSectionString sect (normalizedOffset % 2^32)
  return (.string text,reader)

-- Each DW_FORM_indirect takes a byte at least, so the bytes bound the nesting.
def readAttributeValue (addressSize : Nat) (implicitConst : Int) (sections : Sections) :
    Nat → Form → ByteReader → Except Failure (AttributeValue × ByteReader)
  | 0, _, _ => .error .outOfSteps
  | fuel+1, form, reader => match form with
    | .addr => readUnsigned (if addressSize = 8 then 8 else 4) reader
    | .data1 | .ref1 => readUnsigned 1 reader
    | .data2 | .ref2 => readUnsigned 2 reader
    | .data4 | .refAddr | .ref4 | .secOffset => readUnsigned 4 reader
    | .data8 | .ref8 | .refSig8 => readUnsigned 8 reader
    | .data16 => do
        let (bytes,reader) ← asserted "ok" (.ok (reader.readBytes 16))
        return (.block bytes,reader)
    | .block1 => readBlock (reader.readLittleEndian 1)
    | .block2 => readBlock reader.readU16
    | .block4 => readBlock reader.readU32
    | .block | .exprloc => readBlock reader.readUleb128
    | .string => do
        let (text,reader) ← asserted "ok" reader.readCstring
        return (.string text,reader)
    | .strp => readStrp sections.debugStr reader
    | .lineStrp => readStrp sections.debugLineStr reader
    | .sdata => do
        let (value,reader) ← asserted "ok" reader.readSleb128
        return (.signed value,reader)
    | .udata | .refUdata => do
        let (value,reader) ← asserted "ok" reader.readUleb128
        return (.unsigned value,reader)
    | .flag => do
        let (value,reader) ← asserted "ok" reader.readU8
        return (.flag value.toNat,reader)
    | .flagPresent => return (.flag 1,reader)
    | .implicitConst => return (.signed implicitConst,reader)
    | .strx => readStrx sections reader.readUleb128
    | .addrx => readAddrx sections addressSize reader.readUleb128
    | .loclistx | .rnglistx => readIgnored reader.readUleb128
    | .strx1 => readStrx sections (reader.readLittleEndian 1)
    | .strx2 => readStrx sections reader.readU16
    | .strx3 => readStrx sections (reader.readLittleEndian 3)
    | .strx4 => readStrx sections reader.readU32
    | .addrx1 => readAddrx sections addressSize (reader.readLittleEndian 1)
    | .addrx2 => readAddrx sections addressSize reader.readU16
    | .addrx3 => readAddrx sections addressSize (reader.readLittleEndian 3)
    | .addrx4 => readAddrx sections addressSize reader.readU32
    | .refSup4 | .strpSup => readIgnored reader.readU32
    | .refSup8 => readIgnored reader.readU64
    | .indirect => do
        let (actualForm,reader) ← asserted "ok" reader.readUleb128
        readAttributeValue addressSize implicitConst sections fuel (castForm actualForm) reader
    | .other _ => .error (.unreachable "Unhandled read_attribute_value for: %")

end Dwarf
