import Gameos.DwarfEntries
import Gameos.DwarfLineTurns

-- The bytes of attribute values as the format has them, and what the parser
-- makes of each.
namespace DwarfEncoding
open MachineWords ByteReader Dwarf LineProgram

-- What an attribute value says before any other section is consulted.
inductive Content where
  | unsigned (value : Nat)
  | address (value : Nat)
  -- a reference that counts from the start of the section
  | sectionOffset (value : Nat)
  | signed (value : Int)
  | constant
  | text (bytes : List UInt8)
  | textAt (offset : Nat)
  | lineTextAt (offset : Nat)
  | textIndex (index : Nat)
  | addressIndex (index : Nat)
  | block (bytes : List UInt8)
  | flag (value : Nat)
  -- in a list or in a supplementary file
  | elsewhere
deriving DecidableEq, Repr

-- The forms of a fixed number of bytes.
def fixedForm (addressSize : Nat) : Form → Option (Nat × (Nat → Content))
  | .addr => some (addressSize,.address)
  | .data1 | .ref1 => some (1,.unsigned)
  | .data2 | .ref2 => some (2,.unsigned)
  | .data4 | .ref4 | .secOffset => some (4,.unsigned)
  | .refAddr => some (4,.sectionOffset)
  | .data8 | .ref8 | .refSig8 => some (8,.unsigned)
  | .strp => some (4,.textAt)
  | .lineStrp => some (4,.lineTextAt)
  | .flag => some (1,.flag)
  | .strx1 => some (1,.textIndex)
  | .strx2 => some (2,.textIndex)
  | .strx3 => some (3,.textIndex)
  | .strx4 => some (4,.textIndex)
  | .addrx1 => some (1,.addressIndex)
  | .addrx2 => some (2,.addressIndex)
  | .addrx3 => some (3,.addressIndex)
  | .addrx4 => some (4,.addressIndex)
  | .refSup4 | .strpSup => some (4,fun _ => .elsewhere)
  | .refSup8 => some (8,fun _ => .elsewhere)
  | _ => none

-- The forms of one LEB128 number.
def numberForm : Form → Option (Nat → Content)
  | .udata | .refUdata => some .unsigned
  | .strx => some .textIndex
  | .addrx => some .addressIndex
  | .loclistx | .rnglistx => some fun _ => .elsewhere
  | _ => none

-- The width of the length in front of a block.
def blockForm : Form → Option Nat
  | .block1 => some 1
  | .block2 => some 2
  | .block4 => some 4
  | _ => none

inductive Encoded (addressSize : Nat) : Form → Content → List UInt8 → Prop where
  | fixed : fixedForm addressSize form = some (width,content) → bytes.length = width →
      Encoded addressSize form (content (littleEndian bytes)) bytes
  | number : numberForm form = some content → Unsigned n bytes → Encoded addressSize form (content n) bytes
  | signed : Signed v bytes → Encoded addressSize .sdata (.signed v) bytes
  | flagPresent : Encoded addressSize .flagPresent (.flag 1) []
  | implicitConst : Encoded addressSize .implicitConst .constant []
  | string : (∀ byte ∈ text, byte ≠ 0) → Encoded addressSize .string (.text text) (text ++ [0])
  | data16 : bytes.length = 16 → Encoded addressSize .data16 (.block bytes) bytes
  | sized : blockForm form = some width → front.length = width → littleEndian front = payload.length →
      Encoded addressSize form (.block payload) (front ++ payload)
  | block : form = .block ∨ form = .exprloc → Unsigned payload.length front → payload.length < 2^63 →
      Encoded addressSize form (.block payload) (front ++ payload)
  | indirect : Unsigned code bytes → Encoded addressSize (castForm code) content rest →
      Encoded addressSize .indirect content (bytes ++ rest)

def textIn (sect : Section) (offset : Nat) : Except Failure AttributeValue := do
  let normalizedOffset ← normalizeSectionOffset sect offset
  let text ← readSectionString sect (normalizedOffset % 2^32)
  return .string text

-- The value with the view of a block left out: where the bytes of a block lie
-- depends on the section around it.
def meaning (addressSize : Nat) (implicitConst : Int) (sections : Sections) : Content → Except Failure AttributeValue
  | .unsigned value | .address value | .sectionOffset value => .ok (.unsigned value)
  | .signed value => .ok (.signed value)
  | .constant => .ok (.signed implicitConst)
  | .text bytes => .ok (.string bytes)
  | .textAt offset => textIn sections.debugStr offset
  | .lineTextAt offset => textIn sections.debugLineStr offset
  | .textIndex index => do
      let text ← resolveStrx sections.debugStrOffsets sections.debugStr sections.debugStrOffsetsBase index
      return .string text
  | .addressIndex index => do
      let address ← resolveAddrx sections.debugAddr addressSize sections.debugAddrBase index
      return .unsigned address
  | .block _ => .ok (.block ⟨[],0,0⟩)
  | .flag value => .ok (.flag value)
  | .elsewhere => .ok .none

-- Only an index depends on the bases.
theorem meaning_same {a b : Sections} (same : contents a = contents b) (content : Content)
    (strings : ∀ index, content = .textIndex index → a.debugStrOffsetsBase = b.debugStrOffsetsBase)
    (addresses : ∀ index, content = .addressIndex index → a.debugAddrBase = b.debugAddrBase) :
    meaning addressSize implicitConst a content = meaning addressSize implicitConst b content := by
  have debugStr : a.debugStr = b.debugStr := show (contents a).debugStr = (contents b).debugStr from by rw [same]
  have debugLineStr : a.debugLineStr = b.debugLineStr :=
    show (contents a).debugLineStr = (contents b).debugLineStr from by rw [same]
  have debugStrOffsets : a.debugStrOffsets = b.debugStrOffsets :=
    show (contents a).debugStrOffsets = (contents b).debugStrOffsets from by rw [same]
  have debugAddr : a.debugAddr = b.debugAddr := show (contents a).debugAddr = (contents b).debugAddr from by rw [same]
  cases content with
  | textIndex index => rw [meaning,meaning,debugStr,debugStrOffsets,strings index rfl]
  | addressIndex index => rw [meaning,meaning,debugAddr,addresses index rfl]
  | textAt offset => rw [meaning,meaning,debugStr]
  | lineTextAt offset => rw [meaning,meaning,debugLineStr]
  | _ => rfl

def plain : AttributeValue → AttributeValue
  | .block _ => .block ⟨[],0,0⟩
  | value => value

-- The result of a read, without views.
def plainRead (result : Except Failure (AttributeValue × ByteReader)) : Except Failure (AttributeValue × ByteReader) :=
  result.map fun (value,next) => (plain value,next)

section Reads
variable {reader : ByteReader} {sections : Sections} {implicitConst : Int} {addressSize : Nat}

theorem strx_read (index : Nat) (next : ByteReader) :
    plainRead (readStrx sections (.ok (some (index,next)))) =
      (meaning addressSize implicitConst sections (.textIndex index)).map fun value => (value,next) := by
  rw [readStrx,asserted_ok,ok_bind,meaning]
  dsimp only
  cases resolveStrx sections.debugStrOffsets sections.debugStr sections.debugStrOffsetsBase index with
  | error fault => rfl
  | ok text => rfl

theorem addrx_read (index : Nat) (next : ByteReader) :
    plainRead (readAddrx sections addressSize (.ok (some (index,next)))) =
      (meaning addressSize implicitConst sections (.addressIndex index)).map fun value => (value,next) := by
  rw [readAddrx,asserted_ok,ok_bind,meaning]
  dsimp only
  cases resolveAddrx sections.debugAddr addressSize sections.debugAddrBase index with
  | error fault => rfl
  | ok address => rfl

theorem strp_read (sect : Section) (stands : Stands reader before (bytes ++ after)) (four : bytes.length = 4) :
    plainRead (readStrp sect reader) = (textIn sect (littleEndian bytes)).map fun value =>
      (value,reader.advance bytes.length) := by
  rw [readStrp,readU32,stands.readLittleEndian four,asserted_ok,ok_bind,textIn]
  dsimp only
  cases normalizeSectionOffset sect (littleEndian bytes) with
  | error fault => rfl
  | ok offset =>
      rw [ok_bind,ok_bind]
      cases readSectionString sect (offset % 2^32) with
      | error fault => rfl
      | ok text => rfl

theorem unsigned_read (stands : Stands reader before (bytes ++ after)) (width : bytes.length = n) :
    plainRead (readUnsigned n reader) = .ok (.unsigned (littleEndian bytes),reader.advance bytes.length) := by
  rw [readUnsigned,stands.readLittleEndian width]
  rfl

theorem fixed_read (kind : fixedForm addressSize form = some (width,content)) (usable : addressSize = 4 ∨ addressSize = 8)
    (stands : Stands reader before (bytes ++ after)) (length : bytes.length = width) (fuel : Nat) :
    plainRead (readAttributeValue addressSize implicitConst sections (fuel+1) form reader) =
      (meaning addressSize implicitConst sections (content (littleEndian bytes))).map fun value =>
        (value,reader.advance bytes.length) := by
  have read := stands.readLittleEndian length
  cases form with
  | addr =>
      cases kind
      rcases usable with four | eight
      · subst four
        exact unsigned_read stands length
      · subst eight
        exact unsigned_read stands length
  | data1 | ref1 | data2 | ref2 | data4 | refAddr | ref4 | secOffset | data8 | ref8 | refSig8 =>
      cases kind
      exact unsigned_read stands length
  | strp | lineStrp =>
      cases kind
      exact strp_read _ stands length
  | flag =>
      cases kind
      obtain ⟨byte,rfl⟩ := List.length_eq_one_iff.mp length
      have here : Stands reader before (byte :: after) := stands
      rw [readAttributeValue,here.readU8]
      rfl
  | strx1 | strx2 | strx3 | strx4 =>
      cases kind
      rw [readAttributeValue]
      simp only [readU16,readU32,read]
      exact strx_read _ _
  | addrx1 | addrx2 | addrx3 | addrx4 =>
      cases kind
      rw [readAttributeValue]
      simp only [readU16,readU32,read]
      exact addrx_read _ _
  | refSup4 | strpSup | refSup8 =>
      cases kind
      rw [readAttributeValue]
      simp only [readU32,readU64,read]
      rfl
  | _ => cases kind

theorem number_read (kind : numberForm form = some content) (unsigned : Unsigned n bytes)
    (stands : Stands reader before (bytes ++ after)) (fuel : Nat) :
    plainRead (readAttributeValue addressSize implicitConst sections (fuel+1) form reader) =
      (meaning addressSize implicitConst sections (content n)).map fun value => (value,reader.advance bytes.length) := by
  have read := read_unsigned unsigned stands
  cases form with
  | udata | refUdata | loclistx | rnglistx =>
      cases kind
      rw [readAttributeValue]
      simp only [read]
      rfl
  | strx =>
      cases kind
      rw [readAttributeValue,read]
      exact strx_read _ _
  | addrx =>
      cases kind
      rw [readAttributeValue,read]
      exact addrx_read _ _
  | _ => cases kind

-- A block of which the length has been read.
theorem block_read (stands : Stands reader before (front ++ (payload ++ after))) (small : payload.length < 2^63) :
    plainRead (readBlock (.ok (some (payload.length,reader.advance front.length)))) =
      .ok (.block ⟨[],0,0⟩,reader.advance (front ++ payload).length) := by
  have count : toS64 payload.length = payload.length := toS64_of_range (by omega) (by omega)
  rw [readBlock,asserted_ok,ok_bind]
  dsimp only
  rw [count,stands.advance.readBytes,asserted_ok,ok_bind,advance_advance,List.length_append]
  rfl

theorem cstring_append {text : List UInt8} (unterminated : ∀ byte ∈ text, byte ≠ 0) (after : List UInt8) :
    cstring (text ++ 0 :: after) = some text := by
  induction text with
  | nil => rfl
  | cons byte text ih =>
      rw [List.cons_append,cstring,if_neg (unterminated byte (List.mem_cons_self ..)),
        ih fun byte here => unterminated byte (List.mem_cons_of_mem _ here)]
      rfl

theorem string_read (stands : Stands reader before ((text ++ [0]) ++ after)) (unterminated : ∀ byte ∈ text, byte ≠ 0) :
    reader.readCstring = .ok (some (text,reader.advance (text ++ [0]).length)) := by
  have ahead : reader.source.drop reader.currentOffset.toNat = text ++ 0 :: after := by
    rw [stands.source,stands.offset,Int.toNat_natCast,List.drop_left,List.append_assoc]
    rfl
  rw [readCstring,if_neg (by rw [stands.offset]; omega),ahead,cstring_append unterminated,List.length_append]
  rfl

theorem advance_none (reader : ByteReader) : reader.advance ([] : List UInt8).length = reader := by
  simp [advance]

theorem sized_read (kind : blockForm form = some width) (length : front.length = width)
    (same : littleEndian front = payload.length) (stands : Stands reader before (front ++ (payload ++ after))) (fuel : Nat) :
    plainRead (readAttributeValue addressSize implicitConst sections (fuel+1) form reader) =
      .ok (.block ⟨[],0,0⟩,reader.advance (front ++ payload).length) := by
  have read := stands.readLittleEndian length
  have bound := littleEndian_lt front
  rw [same] at read
  cases form with
  | block1 | block2 | block4 =>
      cases kind
      rw [readAttributeValue]
      simp only [readU16,readU32,read]
      rw [length] at bound
      exact block_read stands (by omega)
  | _ => cases kind

-- Whatever lies around the bytes of a value, the parser reads what they mean
-- and stands behind them.
theorem value_read (implicitConst : Int) (sections : Sections) (encoded : Encoded addressSize form content bytes)
    (usable : addressSize = 4 ∨ addressSize = 8)
    (stands : Stands reader before (bytes ++ after)) (enough : bytes.length < fuel) :
    plainRead (readAttributeValue addressSize implicitConst sections fuel form reader) =
      (meaning addressSize implicitConst sections content).map fun value => (value,reader.advance bytes.length) := by
  induction encoded generalizing reader before fuel with
  | fixed kind length =>
      obtain ⟨fuel,rfl⟩ : ∃ more, fuel = more + 1 := ⟨fuel-1,by omega⟩
      exact fixed_read kind usable stands length fuel
  | number kind unsigned =>
      obtain ⟨fuel,rfl⟩ : ∃ more, fuel = more + 1 := ⟨fuel-1,by omega⟩
      exact number_read kind unsigned stands fuel
  | signed signed =>
      obtain ⟨fuel,rfl⟩ : ∃ more, fuel = more + 1 := ⟨fuel-1,by omega⟩
      rw [readAttributeValue,read_signed signed stands]
      rfl
  | flagPresent | implicitConst =>
      obtain ⟨fuel,rfl⟩ : ∃ more, fuel = more + 1 := ⟨fuel-1,by omega⟩
      rw [readAttributeValue,advance_none]
      rfl
  | string unterminated =>
      obtain ⟨fuel,rfl⟩ : ∃ more, fuel = more + 1 := ⟨fuel-1,by omega⟩
      rw [readAttributeValue,string_read stands unterminated]
      rfl
  | data16 length =>
      obtain ⟨fuel,rfl⟩ : ∃ more, fuel = more + 1 := ⟨fuel-1,by omega⟩
      have read := stands.readBytes
      rw [length] at read
      rw [readAttributeValue,show (16 : Int) = (16 : Nat) from rfl,read,length]
      rfl
  | sized kind length same =>
      obtain ⟨fuel,rfl⟩ : ∃ more, fuel = more + 1 := ⟨fuel-1,by omega⟩
      rw [List.append_assoc] at stands
      rw [sized_read kind length same stands]
      rfl
  | block kind unsigned small =>
      obtain ⟨fuel,rfl⟩ : ∃ more, fuel = more + 1 := ⟨fuel-1,by omega⟩
      rw [List.append_assoc] at stands
      have read := block_read stands small
      rcases kind with rfl | rfl
      · rw [readAttributeValue,read_unsigned unsigned stands,read]
        rfl
      · rw [readAttributeValue,read_unsigned unsigned stands,read]
        rfl
  | indirect unsigned _ ih =>
      obtain ⟨fuel,rfl⟩ : ∃ more, fuel = more + 1 := ⟨fuel-1,by omega⟩
      rw [List.append_assoc] at stands
      have positive := terminated_length unsigned.whole
      rw [List.length_append] at enough
      rw [readAttributeValue,read_unsigned unsigned stands,asserted_ok,ok_bind]
      dsimp only
      rw [ih stands.advance (by omega),advance_advance,List.length_append]
      rfl

-- The two ways it goes.
theorem value_cases (implicitConst : Int) (sections : Sections) (encoded : Encoded addressSize form content bytes)
    (usable : addressSize = 4 ∨ addressSize = 8) (stands : Stands reader before (bytes ++ after))
    (enough : bytes.length < fuel) :
    (∃ fault, readAttributeValue addressSize implicitConst sections fuel form reader = .error fault ∧
      meaning addressSize implicitConst sections content = .error fault) ∨
    ∃ value, readAttributeValue addressSize implicitConst sections fuel form reader =
        .ok (value,reader.advance bytes.length) ∧
      meaning addressSize implicitConst sections content = .ok (plain value) := by
  have read := value_read implicitConst sections encoded usable stands enough
  cases result : readAttributeValue addressSize implicitConst sections fuel form reader with
  | error fault =>
      rw [result] at read
      cases same : meaning addressSize implicitConst sections content with
      | error fault' =>
          rw [same] at read
          cases read
          exact .inl ⟨fault,rfl,rfl⟩
      | ok value =>
          rw [same] at read
          cases read
  | ok pair =>
      obtain ⟨value,next⟩ := pair
      rw [result] at read
      cases same : meaning addressSize implicitConst sections content with
      | error fault =>
          rw [same] at read
          cases read
      | ok value' =>
          rw [same] at read
          cases read
          exact .inr ⟨value,rfl,rfl⟩

end Reads

end DwarfEncoding
