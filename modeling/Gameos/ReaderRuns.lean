import Gameos.LebReaders
import Gameos.DwarfLine

-- Runs of reader operations with the counts the parser computes.
namespace ReaderRuns
open MachineWords ByteReader

-- A count as its caller computes it. All but the constants come from the input.
inductive Count where
  -- read_bytes(16) of DATA16, read_bytes(3) of STRX3 and ADDRX3
  | fixed (count : UInt8)
  -- read_bytes(length) of a block; a length of 1, 2 or 4 bytes is one of u64 too
  | blockLength (length : UInt64)
  -- read_bytes(opcode_base - 1)
  | operandCounts (opcodeBase : UInt8)
  -- skip(normalized_offset)
  | sectionOffset (offset : UInt64)
  -- skip(section_offset + index * size) of an index table
  | entry (sectionOffset index : UInt64) (size : UInt8)
  -- skip(length - header.address_size - 1) and skip(length - 1) of extended opcodes
  | afterAddress (length : UInt64) (addressSize : UInt8)
  | afterOpcode (length : UInt64)
deriving DecidableEq, Repr

-- The count as read_bytes and skip take it.
def Count.toSsize : Count → Int
  | .fixed count => count.toNat
  | .blockLength length => toS64 length.toNat
  | .operandCounts opcodeBase => (opcodeBase.toNat : Int) - 1
  | .sectionOffset offset => toS64 offset.toNat
  | .entry offset index size => toS64 (add64 offset.toNat (mul64 index.toNat size.toNat))
  | .afterAddress length addressSize => toS64 (sub64 (sub64 length.toNat addressSize.toNat) 1)
  | .afterOpcode length => toS64 (sub64 length.toNat 1)

inductive Operation where
  | readU8 | readBool | readS8 | readU16 | readU32 | readU64 | readUleb128 | readSleb128 | readCstring
  | readBytes (count : Count)
  | skip (count : Count)
deriving DecidableEq, Repr

-- What an operation leaves: its `ok`, the view it returned, the reader.
structure Outcome where
  ok : Bool
  view : Option View
  reader : ByteReader
deriving DecidableEq, Repr

-- An operation whose `ok` is false has returned before moving the reader.
def ended (reader : ByteReader) (view : α → Option View) : ReadResult α → Outcome
  | none => ⟨false,none,reader⟩
  | some (result,next) => ⟨true,view result,next⟩

def perform (reader : ByteReader) : Operation → Except Failure Outcome
  | .readU8 => reader.readU8.map (ended reader fun _ => none)
  | .readBool => reader.readBool.map (ended reader fun _ => none)
  | .readS8 => reader.readS8.map (ended reader fun _ => none)
  | .readU16 => reader.readU16.map (ended reader fun _ => none)
  | .readU32 => reader.readU32.map (ended reader fun _ => none)
  | .readU64 => reader.readU64.map (ended reader fun _ => none)
  | .readUleb128 => reader.readUleb128.map (ended reader fun _ => none)
  | .readSleb128 => reader.readSleb128.map (ended reader fun _ => none)
  | .readCstring => reader.readCstring.map (ended reader fun text =>
      some ⟨reader.source,reader.currentOffset,text.length⟩)
  | .readBytes count => .ok (ended reader some (reader.readBytes count.toSsize))
  | .skip count => .ok (ended reader (fun _ => none) ((reader.skip count.toSsize).map fun next => ((),next)))

-- An operation from `reader` stayed inside the source.
structure Kept (reader : ByteReader) (outcome : Outcome) : Prop where
  source : outcome.reader.source = reader.source
  low : 0 ≤ outcome.reader.currentOffset
  high : outcome.reader.currentOffset ≤ outcome.reader.size
  forward : reader.currentOffset ≤ outcome.reader.currentOffset
  view : ∀ view, outcome.view = some view →
    view.source = reader.source ∧ 0 ≤ view.start ∧ 0 ≤ view.size ∧ view.start + view.size ≤ reader.size
  unchanged : outcome.ok = false → outcome.reader = reader

-- Every operation of the run reads only bytes of the source and is kept.
def Inside : ByteReader → List Operation → Prop
  | _, [] => True
  | reader, operation :: operations =>
      ∃ outcome, perform reader operation = .ok outcome ∧ Kept reader outcome ∧ Inside outcome.reader operations

-- The count of an operation is not negative, in the terms of its caller.
def Count.Forward : Count → Prop
  | .fixed _ => True
  | .blockLength length => length.toNat < 2^63
  | .operandCounts opcodeBase => 0 < opcodeBase.toNat
  | .sectionOffset offset => offset.toNat < 2^63
  | .entry offset index size => (offset.toNat + index.toNat * size.toNat) % 2^64 < 2^63
  | .afterAddress length addressSize => 0 < length.toNat - addressSize.toNat ∧ length.toNat ≤ 2^63 + addressSize.toNat
  | .afterOpcode length => 0 < length.toNat ∧ length.toNat ≤ 2^63

def Operation.Forward : Operation → Prop
  | .readBytes count => count.Forward
  | .skip count => count.Forward
  | _ => True

theorem forward_iff (count : Count) : 0 ≤ count.toSsize ↔ count.Forward := by
  cases count with
  | fixed count => simp [Count.toSsize,Count.Forward]
  | blockLength length =>
      have bound := length.toNat_lt
      simp only [Count.toSsize,Count.Forward,toS64]
      omega
  | operandCounts opcodeBase =>
      simp only [Count.toSsize,Count.Forward]
      omega
  | sectionOffset offset =>
      have bound := offset.toNat_lt
      simp only [Count.toSsize,Count.Forward,toS64]
      omega
  | entry offset index size =>
      simp only [Count.toSsize,Count.Forward,toS64,add64,mul64]
      omega
  | afterAddress length addressSize =>
      have bound := length.toNat_lt
      have small := addressSize.toNat_lt
      simp only [Count.toSsize,Count.Forward,toS64,sub64]
      omega
  | afterOpcode length =>
      have bound := length.toNat_lt
      simp only [Count.toSsize,Count.Forward,toS64,sub64]
      omega

-- A reader whose offset is inside its source stands between two parts of it.
theorem stands_of_inside (reader : ByteReader) (low : 0 ≤ reader.currentOffset) (high : reader.currentOffset ≤ reader.size) :
    Stands reader (reader.source.take reader.currentOffset.toNat) (reader.source.drop reader.currentOffset.toNat) := by
  refine ⟨(List.take_append_drop _ _).symm,?_⟩
  unfold ByteReader.size at high
  rw [List.length_take]
  omega

theorem kept_still (stands : Stands reader before after) : Kept reader ⟨false,none,reader⟩ := by
  have here := stands.remaining
  have offset := stands.offset
  unfold ByteReader.remaining at here
  have low : 0 ≤ reader.currentOffset := by omega
  have high : reader.currentOffset ≤ reader.size := by omega
  exact ⟨rfl,low,high,Int.le_refl _,(fun _ absent => nomatch absent),fun _ => rfl⟩

theorem kept_advance {count : Int} (stands : Stands reader before after) (low : 0 ≤ count)
    (room : count ≤ after.length)
    (view : Option View) (within : ∀ shown, view = some shown →
      shown.source = reader.source ∧ shown.start = reader.currentOffset ∧ 0 ≤ shown.size ∧ shown.size ≤ count) :
    Kept reader ⟨true,view,reader.advance count⟩ := by
  have here := stands.remaining
  have offset := stands.offset
  unfold ByteReader.remaining at here
  have size : (reader.advance count).size = reader.size := rfl
  have moved : (reader.advance count).currentOffset = reader.currentOffset + count := rfl
  refine ⟨rfl,?_,?_,?_,?_,fun wrong => by cases wrong⟩
  · show 0 ≤ (reader.advance count).currentOffset
    omega
  · show (reader.advance count).currentOffset ≤ (reader.advance count).size
    omega
  · show reader.currentOffset ≤ (reader.advance count).currentOffset
    omega
  · intro shown some
    obtain ⟨source,start,positive,short⟩ := within shown some
    exact ⟨source,by omega,positive,by omega⟩

-- The readers of numbers either advance within the bytes ahead or stay.
def Reads (reader : ByteReader) (after : List UInt8) (taken : Except Failure (ReadResult α)) : Prop :=
  taken = .ok none ∨ ∃ result, ∃ count : Nat, 0 < count ∧ count ≤ after.length ∧
    taken = .ok (some (result,reader.advance count))

theorem Reads.kept {taken : Except Failure (ReadResult α)} (reads : Reads reader after taken)
    (stands : Stands reader before after) :
    ∃ outcome, taken.map (ended reader fun _ => none) = .ok outcome ∧ Kept reader outcome := by
  rcases reads with none | ⟨result,count,_,room,some⟩
  · exact ⟨_,by rw [none]; rfl,kept_still stands⟩
  · refine ⟨_,by rw [some]; rfl,kept_advance stands (by omega) (by omega) none ?_⟩
    intro _ absent
    cases absent

theorem readLittleEndian_reads (stands : Stands reader before after) (positive : 0 < width) :
    Reads reader after (reader.readLittleEndian width) := by
  by_cases room : width ≤ after.length
  · have split : Stands reader before (after.take width ++ after.drop width) := by rwa [List.take_append_drop]
    have read := split.readLittleEndian (List.length_take_of_le room)
    rw [List.length_take_of_le room] at read
    exact .inr ⟨_,width,positive,room,read⟩
  · left
    rw [readLittleEndian,stands.remaining,if_pos (by omega)]
    rfl

theorem readU8_reads (stands : Stands reader before after) : Reads reader after reader.readU8 := by
  cases after with
  | nil =>
      left
      rw [readU8,stands.remaining,if_pos (by simp)]
      rfl
  | cons byte after => exact .inr ⟨byte,1,by decide,by simp,stands.readU8⟩

theorem readBool_reads (stands : Stands reader before after) : Reads reader after reader.readBool := by
  rcases readU8_reads stands with none | ⟨byte,count,positive,room,some⟩
  · exact .inl (by rw [readBool,none]; rfl)
  · exact .inr ⟨byte != 0,count,positive,room,by rw [readBool,some]; rfl⟩

theorem readS8_reads (stands : Stands reader before after) : Reads reader after reader.readS8 := by
  rcases readU8_reads stands with none | ⟨byte,count,positive,room,some⟩
  · exact .inl (by rw [readS8,none]; rfl)
  · exact .inr ⟨bitCastS8 byte,count,positive,room,by rw [readS8,some]; rfl⟩

-- A LEB128 reader consumes the encoding at the front, where there is one.
theorem leb_reads (stands : Stands reader before after) :
    Reads reader after reader.readUleb128 ∧ Reads reader after reader.readSleb128 := by
  rcases LebReaders.groups_or_none [] 10 0 stands with ⟨bytes,rest,split,whole,short⟩ | absent
  · subst split
    have room : bytes.length ≤ (bytes ++ rest).length := by simp
    have positive := terminated_length whole
    exact ⟨.inr ⟨_,bytes.length,positive,room,stands.uleb128_word whole short⟩,
      .inr ⟨_,bytes.length,positive,room,stands.sleb128_word whole short⟩⟩
  · refine ⟨.inl ?_,.inl ?_⟩
    · rw [readUleb128,show reader.lebGroups 10 0 0 = .ok none from absent]
      rfl
    · rw [readSleb128,show reader.lebGroups 10 0 0 = .ok none from absent]
      rfl

theorem cstring_shorter (found : cstring bytes = some text) : text.length + 1 ≤ bytes.length := by
  induction bytes generalizing text with
  | nil => cases found
  | cons byte bytes ih =>
      rw [cstring] at found
      by_cases zero : byte = 0
      · rw [if_pos zero] at found
        cases found
        simp
      · rw [if_neg zero] at found
        cases rest : cstring bytes with
        | none => simp [rest] at found
        | some tail =>
            rw [rest] at found
            cases found
            simpa using ih rest

theorem readCstring_kept (stands : Stands reader before after) :
    ∃ outcome, perform reader .readCstring = .ok outcome ∧ Kept reader outcome := by
  have offset := stands.offset
  have ahead : reader.source.drop reader.currentOffset.toNat = after := by
    rw [stands.source,offset,Int.toNat_natCast,List.drop_left]
  unfold perform readCstring
  rw [if_neg (by omega),ahead]
  cases found : cstring after with
  | none => exact ⟨_,rfl,kept_still stands⟩
  | some text =>
      have shorter := cstring_shorter found
      refine ⟨_,rfl,kept_advance stands (by omega) (by omega) _ ?_⟩
      intro shown same
      cases same
      exact ⟨rfl,rfl,by simp,by simp⟩

theorem perform_kept (stands : Stands reader before after) (forward : operation.Forward) :
    ∃ outcome, perform reader operation = .ok outcome ∧ Kept reader outcome := by
  cases operation with
  | readU8 => exact (readU8_reads stands).kept stands
  | readBool => exact (readBool_reads stands).kept stands
  | readS8 => exact (readS8_reads stands).kept stands
  | readU16 => exact (readLittleEndian_reads stands (by decide)).kept stands
  | readU32 => exact (readLittleEndian_reads stands (by decide)).kept stands
  | readU64 => exact (readLittleEndian_reads stands (by decide)).kept stands
  | readUleb128 => exact (leb_reads stands).1.kept stands
  | readSleb128 => exact (leb_reads stands).2.kept stands
  | readCstring => exact readCstring_kept stands
  | readBytes count =>
      have low := (forward_iff count).mpr forward
      rw [perform,ByteReader.readBytes,stands.remaining]
      by_cases short : (after.length : Int) < count.toSsize
      · rw [if_pos short]
        exact ⟨_,rfl,kept_still stands⟩
      · rw [if_neg short]
        refine ⟨_,rfl,kept_advance stands low (by omega) _ ?_⟩
        intro shown same
        cases same
        exact ⟨rfl,rfl,low,Int.le_refl _⟩
  | skip count =>
      have low := (forward_iff count).mpr forward
      rw [perform,ByteReader.skip,stands.remaining]
      by_cases short : (after.length : Int) < count.toSsize
      · rw [if_pos short]
        exact ⟨_,rfl,kept_still stands⟩
      · rw [if_neg short]
        refine ⟨_,rfl,kept_advance stands low (by omega) _ ?_⟩
        intro _ absent
        cases absent

-- A negative count always passes the check and moves the reader backwards.
theorem forward_of_kept (stands : Stands reader before after)
    (performed : perform reader operation = .ok outcome) (kept : Kept reader outcome) : operation.Forward := by
  cases operation with
  | readBytes count =>
      refine (forward_iff count).mp (Int.not_lt.mp fun negative => ?_)
      rw [perform,ByteReader.readBytes,stands.remaining,if_neg (by omega)] at performed
      cases performed
      have back := kept.forward
      unfold ended ByteReader.advance at back
      simp only at back
      omega
  | skip count =>
      refine (forward_iff count).mp (Int.not_lt.mp fun negative => ?_)
      rw [perform,ByteReader.skip,stands.remaining,if_neg (by omega)] at performed
      cases performed
      have back := kept.forward
      unfold ended ByteReader.advance at back
      simp only [Option.map_some] at back
      omega
  | _ => trivial

theorem inside_iff (reader : ByteReader) (low : 0 ≤ reader.currentOffset) (high : reader.currentOffset ≤ reader.size)
    (operations : List Operation) : Inside reader operations ↔ ∀ operation ∈ operations, operation.Forward := by
  induction operations generalizing reader with
  | nil => simp [Inside]
  | cons operation operations ih =>
      have stands := stands_of_inside reader low high
      rw [Inside,List.forall_mem_cons]
      constructor
      · rintro ⟨outcome,performed,kept,rest⟩
        exact ⟨forward_of_kept stands performed kept,(ih outcome.reader kept.low kept.high).mp rest⟩
      · rintro ⟨here,rest⟩
        obtain ⟨outcome,performed,kept⟩ := perform_kept stands here
        exact ⟨outcome,performed,kept,(ih outcome.reader kept.low kept.high).mpr rest⟩

-- A run over any source stays inside it exactly when no count is negative.
theorem reader_stays_inside (source : List UInt8) (operations : List Operation) :
    Inside (ofSource source) operations ↔ ∀ operation ∈ operations, operation.Forward :=
  inside_iff (ofSource source) (Int.le_refl _) (by simp [ofSource,ByteReader.size]) operations

def longBlock : List UInt8 := [0xff,0xff,0xff,0xff,0xff,0xff,0xff,0xff,0xff,0x01]

def noSections : Dwarf.Sections :=
  ⟨⟨0,longBlock⟩,⟨0,[]⟩,⟨0,[]⟩,⟨0,[]⟩,⟨0,[]⟩,⟨0,[]⟩,⟨0,[]⟩,0,0⟩

-- A block of 2^64-1 bytes: DW_FORM_block steps back over its own length.
theorem block_length_moves_back :
    (Dwarf.readAttributeValue 8 0 noSections 1 .block (ofSource longBlock) =
      .ok (.block ⟨longBlock,10,-1⟩,⟨longBlock,9⟩)) ∧
    ¬ ∀ source operations, Inside (ofSource source) operations := by
  refine ⟨by decide +kernel,fun always => ?_⟩
  have run := always longBlock [.readUleb128,.readBytes (.blockLength 0xffffffffffffffff)]
  have forward := (inside_iff _ (Int.le_refl _) (by decide) _).mp run _ (List.mem_cons_of_mem _ List.mem_cons_self)
  exact absurd (show (0xffffffffffffffff : UInt64).toNat < 2^63 from forward) (by decide)

end ReaderRuns
