import Gameos.ReaderRuns
import Gameos.DwarfEntries

-- How far the parser moves its reader: every read that succeeds goes forward,
-- except where a length from the input turns negative.
namespace DwarfProgress
open MachineWords ByteReader ReaderRuns BoundedLoops Dwarf

-- Stops of the parser's own: an assertion, or the unreachable default of a switch.
def Stop (fault : Failure) : Prop := (∃ message, fault = .asserted message) ∨ ∃ message, fault = .unreachable message

theorem stop_asserted (message : String) : Stop (.asserted message) := .inl ⟨message,rfl⟩
theorem stop_unreachable (message : String) : Stop (.unreachable message) := .inr ⟨message,rfl⟩

def Stops (result : Except Failure α) : Prop := ∀ fault, result = .error fault → Stop fault

theorem stops_ok (value : α) : Stops (.ok value : Except Failure α) := fun _ wrong => nomatch wrong
theorem stops_error (stop : Stop fault) : Stops (.error fault : Except Failure α) :=
  fun _ same => by cases same; exact stop

theorem stops_bind {first : Except Failure α} {next : α → Except Failure β} (one : Stops first)
    (two : ∀ value, first = .ok value → Stops (next value)) : Stops (first >>= next) := by
  cases result : first with
  | error fault => exact stops_error (one fault result)
  | ok value => exact two value result

def Inside (reader : ByteReader) : Prop := 0 ≤ reader.currentOffset ∧ reader.currentOffset ≤ reader.size

-- A parse from `reader` that stays in its source and goes forward by `least`
-- bytes at least, or stops.
structure Forward (least : Int) (reader : ByteReader) (result : Except Failure (α × ByteReader)) : Prop where
  stops : Stops result
  moves : ∀ value next, result = .ok (value,next) →
    next.source = reader.source ∧ reader.currentOffset + least ≤ next.currentOffset ∧ next.currentOffset ≤ next.size

section Rules
variable {reader : ByteReader}

theorem Forward.inside {result : Except Failure (α × ByteReader)} (forward : Forward least reader result)
    (inside : Inside reader) (positive : 0 ≤ least) (ended : result = .ok (value,next)) : Inside next := by
  obtain ⟨_,low,high⟩ := forward.moves value next ended
  exact ⟨by have := inside.1; omega,high⟩

theorem forward_ok (inside : Inside reader) (value : α) : Forward 0 reader (.ok (value,reader)) := by
  refine ⟨stops_ok _,?_⟩
  intro _ _ same
  cases same
  exact ⟨rfl,by omega,inside.2⟩

theorem forward_error (stop : Stop fault) : Forward least reader (.error fault : Except Failure (α × ByteReader)) :=
  ⟨stops_error stop,fun _ _ wrong => nomatch wrong⟩

-- One parse after the other: the distances add up.
theorem Forward.bind {first : Except Failure (α × ByteReader)} {next : α × ByteReader → Except Failure (β × ByteReader)}
    (one : Forward least reader first) (more : Int)
    (two : ∀ value after, first = .ok (value,after) → Forward more after (next (value,after))) :
    Forward (least + more) reader (first >>= next) := by
  cases result : first with
  | error fault => exact forward_error (one.stops fault result)
  | ok pair =>
      obtain ⟨value,after⟩ := pair
      obtain ⟨source,low,_⟩ := one.moves value after result
      have rest := two value after result
      refine ⟨rest.stops,?_⟩
      intro value' last ended
      obtain ⟨source',low',high'⟩ := rest.moves value' last ended
      exact ⟨source'.trans source,by omega,high'⟩

theorem Forward.weaken {result : Except Failure (α × ByteReader)} (forward : Forward least reader result)
    (less : fewer ≤ least) : Forward fewer reader result := by
  refine ⟨forward.stops,?_⟩
  intro value next ended
  obtain ⟨source,low,high⟩ := forward.moves value next ended
  exact ⟨source,by omega,high⟩

-- A computation that reads nothing, before a parse.
theorem forward_pure_bind {first : Except Failure α} {next : α → Except Failure (β × ByteReader)} (one : Stops first)
    (two : ∀ value, first = .ok value → Forward least reader (next value)) : Forward least reader (first >>= next) := by
  cases result : first with
  | error fault => exact forward_error (one fault result)
  | ok value => exact two value result

theorem forward_reads {taken : Except Failure (ReadResult α)} (message : String) (stands : Stands reader before after)
    (reads : Reads reader after taken) : Forward 1 reader (asserted message taken) := by
  have here := stands.remaining
  unfold ByteReader.remaining at here
  rcases reads with none | ⟨result,count,positive,room,some⟩
  · rw [none]
    exact forward_error (stop_asserted message)
  · rw [some,show asserted message (.ok (Option.some (result,reader.advance count))) = .ok (result,reader.advance count) from rfl]
    refine ⟨stops_ok _,?_⟩
    intro value next same
    cases same
    have moved : (reader.advance count).currentOffset = reader.currentOffset + count := rfl
    have size : (reader.advance count).size = reader.size := rfl
    exact ⟨rfl,by omega,by omega⟩

end Rules

section Readers
variable {reader : ByteReader}

theorem forward_u8 (inside : Inside reader) (message : String) : Forward 1 reader (asserted message reader.readU8) :=
  forward_reads message (stands_of_inside reader inside.1 inside.2) (readU8_reads (stands_of_inside reader inside.1 inside.2))

theorem forward_bool (inside : Inside reader) (message : String) : Forward 1 reader (asserted message reader.readBool) :=
  forward_reads message (stands_of_inside reader inside.1 inside.2) (readBool_reads (stands_of_inside reader inside.1 inside.2))

theorem forward_s8 (inside : Inside reader) (message : String) : Forward 1 reader (asserted message reader.readS8) :=
  forward_reads message (stands_of_inside reader inside.1 inside.2) (readS8_reads (stands_of_inside reader inside.1 inside.2))

theorem forward_littleEndian (inside : Inside reader) (message : String) (positive : 0 < width) :
    Forward 1 reader (asserted message (reader.readLittleEndian width)) :=
  forward_reads message (stands_of_inside reader inside.1 inside.2)
    (readLittleEndian_reads (stands_of_inside reader inside.1 inside.2) positive)

theorem forward_uleb128 (inside : Inside reader) (message : String) :
    Forward 1 reader (asserted message reader.readUleb128) :=
  forward_reads message (stands_of_inside reader inside.1 inside.2) (leb_reads (stands_of_inside reader inside.1 inside.2)).1

theorem forward_sleb128 (inside : Inside reader) (message : String) :
    Forward 1 reader (asserted message reader.readSleb128) :=
  forward_reads message (stands_of_inside reader inside.1 inside.2) (leb_reads (stands_of_inside reader inside.1 inside.2)).2

theorem readCstring_reads (stands : Stands reader before after) : Reads reader after reader.readCstring := by
  have offset := stands.offset
  have ahead : reader.source.drop reader.currentOffset.toNat = after := by
    rw [stands.source,offset,Int.toNat_natCast,List.drop_left]
  unfold readCstring
  rw [if_neg (by omega),ahead]
  cases found : cstring after with
  | none => exact .inl rfl
  | some text =>
      have shorter := cstring_shorter found
      refine .inr ⟨text,text.length+1,Nat.succ_pos _,shorter,?_⟩
      rfl

theorem forward_cstring (inside : Inside reader) (message : String) :
    Forward 1 reader (asserted message reader.readCstring) :=
  forward_reads message (stands_of_inside reader inside.1 inside.2)
    (readCstring_reads (stands_of_inside reader inside.1 inside.2))

-- A count below 0 moves the reader back.
theorem forward_bytes (reader : ByteReader) (count : Int) (message : String) :
    Forward count reader (asserted message (.ok (reader.readBytes count))) := by
  unfold readBytes
  split
  · exact forward_error (stop_asserted _)
  · rename_i room
    refine ⟨stops_ok _,?_⟩
    intro _ _ same
    cases same
    have moved : (reader.advance count).currentOffset = reader.currentOffset + count := rfl
    have size : (reader.advance count).size = reader.size := rfl
    unfold ByteReader.remaining at room
    exact ⟨rfl,by omega,by omega⟩

end Readers

section Values
variable {reader : ByteReader} {sections : Sections}

theorem stops_normalize (sect : Section) (rawOffset : Nat) : Stops (normalizeSectionOffset sect rawOffset) := by
  unfold normalizeSectionOffset
  split
  · exact stops_ok _
  · split
    · exact stops_error (stop_asserted _)
    · show Stops (if _ then _ else _)
      split
      · exact stops_error (stop_asserted _)
      · exact stops_ok _

theorem ofSource_inside (source : List UInt8) : Inside (ofSource source) := ⟨Int.le_refl _,by simp [ofSource,ByteReader.size]⟩

theorem stops_text (sect : Section) (offset : Nat) : Stops (readSectionString sect offset) := by
  refine stops_bind (stops_normalize sect offset) fun sectionOffset _ => ?_
  refine stops_bind (forward_cstring (ofSource_inside _) _).stops ?_
  rintro ⟨text,after⟩ _
  exact stops_ok _

-- The entry of an index table lies at a count that is not negative.
def ForwardEntry (sect : Section) (base index width : Nat) : Prop :=
  ∀ offset, normalizeSectionOffset sect (base % 2^32) = .ok offset → (offset + index * width) % 2^64 < 2^63

theorem skip_inside (inside : Inside reader) (positive : 0 ≤ count) (skipped : reader.skip count = some next) :
    next.source = reader.source ∧ next.currentOffset = reader.currentOffset + count ∧ Inside next := by
  unfold ByteReader.skip at skipped
  by_cases short : reader.remaining < count
  · rw [if_pos short] at skipped
    cases skipped
  · rw [if_neg short] at skipped
    cases skipped
    have moved : (reader.advance count).currentOffset = reader.currentOffset + count := rfl
    have size : (reader.advance count).size = reader.size := rfl
    unfold ByteReader.remaining at short
    obtain ⟨low,high⟩ := inside
    exact ⟨rfl,rfl,by omega,by omega⟩

theorem entryAt_forward (forward : ForwardEntry sect base index width) (message : String) :
    Stops (entryAt sect base index width message) ∧
      ∀ entry, entryAt sect base index width message = .ok entry → Inside entry := by
  unfold entryAt
  cases normalized : normalizeSectionOffset sect (base % 2^32) with
  | error fault =>
      refine ⟨stops_error (stops_normalize _ _ fault normalized),?_⟩
      intro _ wrong
      cases wrong
  | ok offset =>
      have low : 0 ≤ toS64 (add64 offset (mul64 index width)) := by
        have bound := forward offset normalized
        unfold toS64 add64 mul64
        omega
      rw [ok_bind]
      generalize toS64 (add64 offset (mul64 index width)) = count at low
      cases skipped : (ofSource sect.bytes).skip count with
      | none => exact ⟨stops_error (stop_asserted _),fun _ wrong => nomatch wrong⟩
      | some reader =>
          refine ⟨stops_ok _,?_⟩
          intro entry same
          cases same
          exact (skip_inside (ofSource_inside _) low skipped).2.2

theorem stops_strx (forward : ForwardEntry debugStrOffsets base index 4) :
    Stops (resolveStrx debugStrOffsets debugStr base index) := by
  obtain ⟨stops,inside⟩ := entryAt_forward forward "dwarf: strx index out of range"
  refine stops_bind stops fun entry found => ?_
  refine stops_bind (forward_littleEndian (inside entry found) _ (by decide)).stops ?_
  rintro ⟨offset,after⟩ _
  exact stops_text debugStr offset

theorem stops_addrx (forward : ForwardEntry debugAddr base index addressSize) :
    Stops (resolveAddrx debugAddr addressSize base index) := by
  obtain ⟨stops,inside⟩ := entryAt_forward forward "dwarf: addrx index out of range"
  refine stops_bind stops fun entry found => ?_
  refine stops_bind ?_ ?_
  · split
    · exact (forward_littleEndian (inside entry found) _ (by decide)).stops
    · exact (forward_littleEndian (inside entry found) _ (by decide)).stops
  · rintro ⟨address,after⟩ _
    exact stops_ok _

-- The same of the index that was read for it.
def ForwardIndex (sect : Section) (base width : Nat) (taken : Except Failure (ReadResult Nat)) : Prop :=
  ∀ index next, taken = .ok (some (index,next)) → ForwardEntry sect base index width

-- What has to hold of the bytes in front of an attribute value for the read to
-- go forward: of its block length and of its place in an index table.
def ForwardValue (addressSize : Nat) (sections : Sections) : Nat → Form → ByteReader → Prop
  | 0, _, _ => True
  | fuel+1, form, reader =>
    match form with
    | .block | .exprloc => ∀ length next, reader.readUleb128 = .ok (some (length,next)) → length < 2^63
    | .strx => ForwardIndex sections.debugStrOffsets sections.debugStrOffsetsBase 4 reader.readUleb128
    | .strx1 => ForwardIndex sections.debugStrOffsets sections.debugStrOffsetsBase 4 (reader.readLittleEndian 1)
    | .strx2 => ForwardIndex sections.debugStrOffsets sections.debugStrOffsetsBase 4 reader.readU16
    | .strx3 => ForwardIndex sections.debugStrOffsets sections.debugStrOffsetsBase 4 (reader.readLittleEndian 3)
    | .strx4 => ForwardIndex sections.debugStrOffsets sections.debugStrOffsetsBase 4 reader.readU32
    | .addrx => ForwardIndex sections.debugAddr sections.debugAddrBase addressSize reader.readUleb128
    | .addrx1 => ForwardIndex sections.debugAddr sections.debugAddrBase addressSize (reader.readLittleEndian 1)
    | .addrx2 => ForwardIndex sections.debugAddr sections.debugAddrBase addressSize reader.readU16
    | .addrx3 => ForwardIndex sections.debugAddr sections.debugAddrBase addressSize (reader.readLittleEndian 3)
    | .addrx4 => ForwardIndex sections.debugAddr sections.debugAddrBase addressSize reader.readU32
    | .indirect => ∀ form next, reader.readUleb128 = .ok (some (form,next)) →
        ForwardValue addressSize sections fuel (castForm form) next
    | _ => True

theorem forward_unsigned (inside : Inside reader) (positive : 0 < width) : Forward 1 reader (readUnsigned width reader) := by
  refine ((forward_littleEndian inside "ok" positive).bind 0 ?_).weaken (by omega)
  intro value after taken
  exact forward_ok ((forward_littleEndian inside "ok" positive).inside inside (by omega) taken) _

theorem forward_block {taken : Except Failure (ReadResult Nat)} (inside : Inside reader)
    (reads : Forward 1 reader (asserted "length_ok" taken))
    (small : ∀ length next, taken = .ok (some (length,next)) → length < 2^63) : Forward 1 reader (readBlock taken) := by
  refine (reads.bind 0 ?_).weaken (by omega)
  intro length after ended
  have inside' := reads.inside inside (by omega) ended
  have positive : 0 ≤ toS64 length := by
    have bound : length < 2^63 := by
      cases result : taken with
      | error fault => simp [asserted,result] at ended; cases ended
      | ok outcome =>
          cases outcome with
          | none => rw [result] at ended; cases ended
          | some pair =>
              rw [result] at ended
              cases ended
              exact small _ _ result
    unfold toS64
    omega
  have block := (forward_bytes after (toS64 length) "bytes_ok").weaken positive
  refine (block.bind 0 ?_).weaken (by omega)
  intro bytes last ended'
  exact forward_ok (block.inside inside' (by omega) ended') _

theorem littleEndian_small (inside : Inside reader) (taken : reader.readLittleEndian width = .ok (some (value,next))) :
    value < 256^width := by
  have stands := stands_of_inside reader inside.1 inside.2
  by_cases room : width ≤ (reader.source.drop reader.currentOffset.toNat).length
  · have split := stands
    rw [← List.take_append_drop width (reader.source.drop reader.currentOffset.toNat)] at split
    have size := List.length_take_of_le room
    have read := split.readLittleEndian size
    rw [taken] at read
    cases read
    have bound := littleEndian_lt ((reader.source.drop reader.currentOffset.toNat).take width)
    rwa [size] at bound
  · unfold readLittleEndian at taken
    rw [stands.remaining,if_pos (by omega)] at taken
    cases taken

theorem forward_sized_block (inside : Inside reader) (positive : 0 < width) (narrow : width ≤ 4) :
    Forward 1 reader (readBlock (reader.readLittleEndian width)) := by
  refine forward_block inside (forward_littleEndian inside _ positive) fun length next taken => ?_
  have bound := littleEndian_small inside taken
  have narrower : 256^width ≤ 256^4 := Nat.pow_le_pow_right (by decide) narrow
  omega

-- A read that is kept or dropped, and one whose index is looked up.
theorem forward_then {taken : Except Failure (ReadResult α)} (inside : Inside reader)
    (reads : Forward 1 reader (asserted message taken)) (value : α → AttributeValue) :
    Forward 1 reader (do let (result,next) ← asserted message taken; return (value result,next)) := by
  refine (reads.bind 0 ?_).weaken (by omega)
  intro result after ended
  exact forward_ok (reads.inside inside (by omega) ended) _

theorem asserted_taken {taken : Except Failure (ReadResult α)} (ended : asserted message taken = .ok (result,next)) :
    taken = .ok (some (result,next)) := by
  cases same : taken with
  | error fault => rw [same] at ended; cases ended
  | ok outcome =>
      cases outcome with
      | none => rw [same] at ended; cases ended
      | some pair => rw [same] at ended; cases ended; rfl

theorem forward_strx {taken : Except Failure (ReadResult Nat)} (inside : Inside reader)
    (reads : Forward 1 reader (asserted "ok" taken))
    (entry : ForwardIndex sections.debugStrOffsets sections.debugStrOffsetsBase 4 taken) :
    Forward 1 reader (readStrx sections taken) := by
  refine (reads.bind 0 ?_).weaken (by omega)
  intro index after ended
  refine forward_pure_bind (stops_strx (entry index after (asserted_taken ended))) fun text _ => ?_
  exact forward_ok (reads.inside inside (by omega) ended) _

theorem forward_addrx {taken : Except Failure (ReadResult Nat)} (inside : Inside reader)
    (reads : Forward 1 reader (asserted "ok" taken))
    (entry : ForwardIndex sections.debugAddr sections.debugAddrBase addressSize taken) :
    Forward 1 reader (readAddrx sections addressSize taken) := by
  refine (reads.bind 0 ?_).weaken (by omega)
  intro index after ended
  refine forward_pure_bind (stops_addrx (entry index after (asserted_taken ended))) fun text _ => ?_
  exact forward_ok (reads.inside inside (by omega) ended) _

theorem forward_strp (inside : Inside reader) (sect : Section) : Forward 1 reader (readStrp sect reader) := by
  have reads := forward_littleEndian inside "ok" (show 0 < 4 by decide)
  refine (reads.bind 0 ?_).weaken (by omega)
  intro offset after ended
  refine forward_pure_bind (stops_normalize _ _) fun normalized _ => ?_
  refine forward_pure_bind (stops_text _ _) fun text _ => ?_
  exact forward_ok (reads.inside inside (by omega) ended) _

-- Every form goes forward where its length and index do; DW_FORM_flag_present
-- and DW_FORM_implicit_const take no bytes.
theorem forward_value (fuel : Nat) (inside : Inside reader) (enough : reader.remaining < fuel)
    (forward : ForwardValue addressSize sections fuel form reader) :
    Forward 0 reader (readAttributeValue addressSize implicitConst sections fuel form reader) := by
  have fewer : ∀ {result : Except Failure (AttributeValue × ByteReader)}, Forward 1 reader result → Forward 0 reader result :=
    fun goes => goes.weaken (by omega)
  induction fuel generalizing form reader with
  | zero =>
      have low := inside.2
      unfold ByteReader.remaining at enough
      omega
  | succ fuel ih =>
      cases form with
      | indirect =>
          have reads := forward_uleb128 inside "ok"
          refine (reads.bind 0 ?_).weaken (by omega)
          intro value after ended
          have inside' := reads.inside inside (by omega) ended
          obtain ⟨source,low,_⟩ := reads.moves _ _ ended
          refine ih inside' ?_ (forward value after (asserted_taken ended)) fun goes => goes.weaken (by omega)
          unfold ByteReader.remaining ByteReader.size at *
          rw [source]
          omega
      | addr =>
          refine fewer ?_
          show Forward 1 reader (readUnsigned (if addressSize = 8 then 8 else 4) reader)
          split
          · exact forward_unsigned inside (by decide)
          · exact forward_unsigned inside (by decide)
      | data1 | ref1 => exact fewer (forward_unsigned inside (by decide))
      | data2 | ref2 => exact fewer (forward_unsigned inside (by decide))
      | data4 | refAddr | ref4 | secOffset => exact fewer (forward_unsigned inside (by decide))
      | data8 | ref8 | refSig8 => exact fewer (forward_unsigned inside (by decide))
      | data16 =>
          have block := forward_bytes reader 16 "ok"
          refine (block.bind 0 ?_).weaken (by omega)
          intro bytes after ended
          exact forward_ok (block.inside inside (by omega) ended) _
      | block1 => exact fewer (forward_sized_block inside (by decide) (by decide))
      | block2 => exact fewer (forward_sized_block inside (by decide) (by decide))
      | block4 => exact fewer (forward_sized_block inside (by decide) (by decide))
      | block | exprloc => exact fewer (forward_block inside (forward_uleb128 inside _) forward)
      | string => exact fewer (forward_then inside (forward_cstring inside _) .string)
      | strp => exact fewer (forward_strp inside _)
      | lineStrp => exact fewer (forward_strp inside _)
      | sdata => exact fewer (forward_then inside (forward_sleb128 inside _) .signed)
      | udata | refUdata => exact fewer (forward_then inside (forward_uleb128 inside _) .unsigned)
      | flag => exact fewer (forward_then inside (forward_u8 inside _) fun byte => .flag byte.toNat)
      | flagPresent => exact forward_ok inside _
      | implicitConst => exact forward_ok inside _
      | strx => exact fewer (forward_strx inside (forward_uleb128 inside _) forward)
      | strx1 => exact fewer (forward_strx inside (forward_littleEndian inside _ (by decide)) forward)
      | strx2 => exact fewer (forward_strx inside (forward_littleEndian inside _ (by decide)) forward)
      | strx3 => exact fewer (forward_strx inside (forward_littleEndian inside _ (by decide)) forward)
      | strx4 => exact fewer (forward_strx inside (forward_littleEndian inside _ (by decide)) forward)
      | addrx => exact fewer (forward_addrx inside (forward_uleb128 inside _) forward)
      | addrx1 => exact fewer (forward_addrx inside (forward_littleEndian inside _ (by decide)) forward)
      | addrx2 => exact fewer (forward_addrx inside (forward_littleEndian inside _ (by decide)) forward)
      | addrx3 => exact fewer (forward_addrx inside (forward_littleEndian inside _ (by decide)) forward)
      | addrx4 => exact fewer (forward_addrx inside (forward_littleEndian inside _ (by decide)) forward)
      | loclistx | rnglistx => exact fewer (forward_then inside (forward_uleb128 inside _) fun _ => .none)
      | refSup4 | strpSup => exact fewer (forward_then inside (forward_littleEndian inside _ (by decide)) fun _ => .none)
      | refSup8 => exact fewer (forward_then inside (forward_littleEndian inside _ (by decide)) fun _ => .none)
      | other value => exact forward_error (stop_unreachable _)

end Values

section Entries

theorem stops_unsignedOf (value : AttributeValue) : Stops (unsignedOf value) := by
  cases value with
  | unsigned value => exact stops_ok _
  | _ => exact stops_error (stop_asserted _)

theorem stops_stringOf (value : AttributeValue) : Stops (stringOf value) := by
  cases value with
  | string value => exact stops_ok _
  | _ => exact stops_error (stop_asserted _)

theorem stops_recordSubprogram (unitStart : Nat) (spec : AttributeSpec) (value : AttributeValue) (entry : EntryState) :
    Stops (recordSubprogram unitStart spec value entry) := by
  unfold recordSubprogram
  split
  · exact stops_bind (stops_stringOf value) fun _ _ => stops_ok _
  · exact stops_bind (stops_unsignedOf value) fun _ _ => stops_ok _
  · exact stops_bind (stops_unsignedOf value) fun _ _ => stops_ok _
  · exact stops_bind (stops_unsignedOf value) fun _ _ => stops_ok _
  · exact stops_ok _

theorem stops_recordUnit (tag : Tag) (spec : AttributeSpec) (value : AttributeValue) (unit : UnitState) :
    Stops (recordUnit tag spec value unit) := by
  unfold recordUnit
  split
  all_goals try
    split
    · exact stops_error (stop_asserted _)
    · split
      · exact stops_error (stop_asserted _)
      · exact stops_bind (stops_unsignedOf value) fun _ _ => stops_ok _
  exact stops_ok _

theorem stops_recordAttribute (context : UnitContext) (tag : Tag) (spec : AttributeSpec) (value : AttributeValue)
    (entry : EntryState) (unit : UnitState) : Stops (recordAttribute context tag spec value entry unit) := by
  unfold recordAttribute
  refine stops_bind ?_ fun _ _ => stops_bind (stops_recordUnit tag spec value unit) fun _ _ => stops_ok _
  split
  · exact stops_recordSubprogram context.unitStart spec value entry
  · exact stops_ok _

-- The attributes of one entry, each where the one before has left the reader.
def ForwardAttributes (context : UnitContext) (tag : Tag) :
    List AttributeSpec → EntryState → UnitState → ByteReader → Prop
  | [], _, _, _ => True
  | spec :: specs, entry, unit, reader =>
    ForwardValue context.addressSize unit.sections (reader.source.length+1) spec.form reader ∧
      ∀ value next entry' unit',
        readAttributeValue context.addressSize spec.implicitConst unit.sections (reader.source.length+1) spec.form reader =
          .ok (value,next) →
        recordAttribute context tag spec value entry unit = .ok (entry',unit') →
        ForwardAttributes context tag specs entry' unit' next

def ForwardTurn (context : UnitContext) (state : UnitState × ByteReader) : Prop :=
  ∀ code next declaration, state.2.readUleb128 = .ok (some (code,next)) → code ≠ 0 →
    context.abbreviations.find code = some declaration →
    ForwardAttributes context declaration.tag declaration.attributeSpecs .init state.1 next

theorem short_of_inside (inside : Inside reader) : reader.remaining < (reader.source.length + 1 : Nat) := by
  obtain ⟨low,_⟩ := inside
  unfold ByteReader.remaining ByteReader.size
  omega

-- The reader part of a result that has more in it.
def lastOf (result : Except Failure (α × β × ByteReader)) : Except Failure ((α × β) × ByteReader) :=
  result.map fun (a,b,next) => ((a,b),next)

theorem lastOf_bind (first : Except Failure γ) (next : γ → Except Failure (α × β × ByteReader)) :
    lastOf (first >>= next) = first >>= fun value => lastOf (next value) := by
  cases first with
  | error fault => rfl
  | ok value => rfl

theorem lastOf_taken {result : Except Failure (α × β × ByteReader)} (taken : lastOf result = .ok ((a,b),next)) :
    result = .ok (a,b,next) := by
  cases result with
  | error fault => cases taken
  | ok value =>
      cases taken
      rfl

theorem bind_lastOf (first : Except Failure (α × β × ByteReader)) (next : α × β × ByteReader → Except Failure γ) :
    first >>= next = lastOf first >>= fun ((a,b),after) => next (a,b,after) := by
  cases first with
  | error fault => rfl
  | ok value => rfl

theorem attributes_forward (context : UnitContext) (tag : Tag) (specs : List AttributeSpec) (inside : Inside reader)
    (forward : ForwardAttributes context tag specs entry unit reader) :
    Forward 0 reader (lastOf (readAttributes context tag specs entry unit reader)) := by
  induction specs generalizing entry unit reader with
  | nil => exact forward_ok inside _
  | cons spec specs ih =>
      obtain ⟨here,rest⟩ := forward
      have reads : Forward 0 reader (readAttributeValue context.addressSize spec.implicitConst unit.sections
          (reader.source.length+1) spec.form reader) := forward_value _ inside (short_of_inside inside) here
      rw [readAttributes,lastOf_bind]
      refine (reads.bind 0 ?_).weaken (by omega)
      intro value after taken
      have inside' := reads.inside inside (by omega) taken
      dsimp only
      rw [lastOf_bind]
      refine forward_pure_bind (stops_recordAttribute context tag spec value entry unit) ?_
      rintro ⟨entry',unit'⟩ recorded
      exact ih inside' (rest value after entry' unit' taken recorded)

end Entries

-- A turn of a loop that moves its reader on, or stops.
structure Advances (position : σ → ByteReader) (invariant : σ → Prop)
    (turn : σ → Except Failure (BoundedLoops.Turn σ δ)) (s : σ) : Prop where
  stops : Stops (turn s)
  moves : ∀ t, turn s = .ok (.again t) → (position t).source = (position s).source ∧
    (position s).currentOffset < (position t).currentOffset ∧ 0 < (position s).remaining ∧ invariant t

-- Such turns end, after no more of them than there are bytes.
theorem loop_stops {position : σ → ByteReader} {invariant : σ → Prop}
    {turn : σ → Except Failure (BoundedLoops.Turn σ δ)}
    (advances : ∀ t, Reaches turn s t → invariant t → Advances position invariant turn t) (start : invariant s)
    (enough : (position s).remaining.toNat < turns) : ∃ t, Reaches turn s t ∧ invariant t ∧
      ((∃ e, turn t = .error e ∧ Stop e ∧ loop .outOfSteps turn turns s = .error e) ∨
        ∃ result, turn t = .ok (.done result) ∧ loop .outOfSteps turn turns s = .ok result) := by
  have keep : ∀ t, Reaches turn s t → invariant t := fun t reaches => reaches.keeps
    (fun t u before here step => ((advances t before here).moves u step).2.2.2) start
  have measured : ∀ t u, Reaches turn s t → turn t = .ok (.again u) →
      (position u).remaining.toNat < (position t).remaining.toNat := by
    intro t u reaches step
    obtain ⟨source,further,left,_⟩ := (advances t reaches (keep t reaches)).moves u step
    unfold ByteReader.remaining ByteReader.size at *
    rw [source]
    omega
  obtain ⟨t,reaches,ended⟩ := loop_ends (fun t => (position t).remaining.toNat) Failure.outOfSteps measured turns enough
  refine ⟨t,reaches,keep t reaches,?_⟩
  obtain ⟨e,step,result⟩ | ended := ended
  · exact .inl ⟨e,step,(advances t reaches (keep t reaches)).stops e step,result⟩
  · exact .inr ended

-- Every turn that is not the last moves the reader on.
def GoesOn (position : σ → ByteReader) (turn : σ → Except Failure (BoundedLoops.Turn σ δ)) (s : σ) : Prop :=
  ∀ t u, Reaches turn s t → turn t = .ok (.again u) → (position t).currentOffset < (position u).currentOffset

theorem goesOn_of_advances {position : σ → ByteReader} {invariant : σ → Prop}
    {turn : σ → Except Failure (BoundedLoops.Turn σ δ)}
    (advances : ∀ t, Reaches turn s t → invariant t → Advances position invariant turn t) (start : invariant s) :
    GoesOn position turn s := by
  intro t u reaches step
  have here : invariant t := reaches.keeps (fun t u before here step => ((advances t before here).moves u step).2.2.2) start
  exact ((advances t reaches here).moves u step).2.1

-- A turn from `reader`: it stops, is done no further back, or goes on `least`
-- bytes further at least.
structure Onward (least : Int) (reader : ByteReader)
    (result : Except Failure (BoundedLoops.Turn (α × ByteReader) (β × ByteReader))) : Prop where
  stops : Stops result
  again : ∀ t next, result = .ok (.again (t,next)) →
    next.source = reader.source ∧ reader.currentOffset + least ≤ next.currentOffset ∧ next.currentOffset ≤ next.size
  done : ∀ value next, result = .ok (.done (value,next)) →
    next.source = reader.source ∧ reader.currentOffset ≤ next.currentOffset ∧ next.currentOffset ≤ next.size

section Turns
variable {reader : ByteReader} {α β : Type}

theorem onward_error (stop : Stop fault) :
    Onward least reader (.error fault : Except Failure (BoundedLoops.Turn (α × ByteReader) (β × ByteReader))) :=
  ⟨stops_error stop,fun _ _ wrong => (nomatch wrong),fun _ _ wrong => (nomatch wrong)⟩

theorem onward_again (inside : Inside reader) (t : α) :
    Onward 0 reader (.ok (.again (t,reader)) : Except Failure (BoundedLoops.Turn (α × ByteReader) (β × ByteReader))) := by
  refine ⟨stops_ok _,?_,fun _ _ wrong => (nomatch wrong)⟩
  intro _ _ same
  cases same
  exact ⟨rfl,by omega,inside.2⟩

theorem onward_done (inside : Inside reader) (value : β) :
    Onward least reader (.ok (.done (value,reader)) :
      Except Failure (BoundedLoops.Turn (α × ByteReader) (β × ByteReader))) := by
  refine ⟨stops_ok _,fun _ _ wrong => (nomatch wrong),?_⟩
  intro _ _ same
  cases same
  exact ⟨rfl,Int.le_refl _,inside.2⟩

theorem Forward.turn {first : Except Failure (γ × ByteReader)}
    {next : γ × ByteReader → Except Failure (BoundedLoops.Turn (α × ByteReader) (β × ByteReader))}
    (one : Forward least reader first) (positive : 0 ≤ least) (more : Int)
    (two : ∀ value after, first = .ok (value,after) → Onward more after (next (value,after))) :
    Onward (least + more) reader (first >>= next) := by
  cases result : first with
  | error fault => exact onward_error (one.stops fault result)
  | ok pair =>
      obtain ⟨value,after⟩ := pair
      obtain ⟨source,low,_⟩ := one.moves value after result
      have rest := two value after result
      refine ⟨rest.stops,?_,?_⟩
      · intro t last ended
        obtain ⟨source',low',high'⟩ := rest.again t last ended
        exact ⟨source'.trans source,by omega,high'⟩
      · intro value' last ended
        obtain ⟨source',low',high'⟩ := rest.done value' last ended
        exact ⟨source'.trans source,by omega,high'⟩

theorem Onward.weaken {result : Except Failure (BoundedLoops.Turn (α × ByteReader) (β × ByteReader))}
    (onward : Onward least reader result) (less : fewer ≤ least) : Onward fewer reader result := by
  refine ⟨onward.stops,?_,onward.done⟩
  intro t next ended
  obtain ⟨source,low,high⟩ := onward.again t next ended
  exact ⟨source,by omega,high⟩

def Behind (reader next : ByteReader) : Prop :=
  next.source = reader.source ∧ reader.currentOffset ≤ next.currentOffset ∧ Inside next

theorem onward_advances {turn : α × ByteReader → Except Failure (BoundedLoops.Turn (α × ByteReader) (β × ByteReader))}
    {s : α × ByteReader} (behind : Behind reader s.2) (onward : Onward 1 s.2 (turn s)) :
    Advances (·.2) (fun t => Behind reader t.2) turn s := by
  refine ⟨onward.stops,?_⟩
  rintro ⟨t,next⟩ step
  obtain ⟨source,low,high⟩ := onward.again t next step
  obtain ⟨same,start,inside⟩ := behind
  obtain ⟨positive,_⟩ := inside
  have size : s.2.size = next.size := by
    unfold ByteReader.size
    rw [source]
  refine ⟨source,by dsimp only; omega,?_,source.trans same,by dsimp only; omega,by dsimp only; omega,high⟩
  unfold ByteReader.remaining
  omega

theorem loop_goesOn {turn : α × ByteReader → Except Failure (BoundedLoops.Turn (α × ByteReader) (β × ByteReader))}
    {s : α × ByteReader} (inside : Inside s.2)
    (onward : ∀ t, Reaches turn s t → Behind s.2 t.2 → Onward 1 t.2 (turn t)) : GoesOn (·.2) turn s := by
  have advances : ∀ t, Reaches turn s t → Behind s.2 t.2 → Advances (·.2) (fun t => Behind s.2 t.2) turn t :=
    fun t reaches behind => onward_advances behind (onward t reaches behind)
  exact goesOn_of_advances advances ⟨rfl,Int.le_refl _,inside⟩

-- A loop of such turns goes forward as a whole.
theorem loop_forward {turn : α × ByteReader → Except Failure (BoundedLoops.Turn (α × ByteReader) (β × ByteReader))}
    {s : α × ByteReader} (inside : Inside s.2)
    (onward : ∀ t, Reaches turn s t → Behind s.2 t.2 → Onward 1 t.2 (turn t)) (enough : s.2.remaining.toNat < turns) :
    Forward 0 s.2 (loop .outOfSteps turn turns s) := by
  have advances : ∀ t, Reaches turn s t → Behind s.2 t.2 → Advances (·.2) (fun t => Behind s.2 t.2) turn t :=
    fun t reaches behind => onward_advances behind (onward t reaches behind)
  obtain ⟨t,reaches,behind,ended⟩ := loop_stops advances ⟨rfl,Int.le_refl _,inside⟩ enough
  obtain ⟨e,_,stop,failed⟩ | ⟨result,step,returned⟩ := ended
  · rw [failed]
    exact forward_error stop
  · rw [returned]
    refine ⟨stops_ok _,?_⟩
    intro value next same
    cases same
    obtain ⟨source,low,high⟩ := (onward t reaches behind).done value next step
    obtain ⟨start,further,_⟩ := behind
    exact ⟨source.trans start,by omega,high⟩

end Turns

section Loops
variable {reader : ByteReader}

theorem attributeSpecTurn_onward {state : List AttributeSpec × ByteReader} (inside : Inside state.2) :
    Onward 2 state.2 (attributeSpecTurn state) := by
  obtain ⟨attributeSpecs,debugAbbrev⟩ := state
  have one := forward_uleb128 inside "attribute_type_ok"
  refine (one.turn (by omega) 1 ?_).weaken (by omega)
  intro attributeType debugAbbrev taken
  have inside := one.inside inside (by omega) taken
  have two := forward_uleb128 inside "form_ok"
  refine (two.turn (by omega) 0 ?_).weaken (by omega)
  intro form debugAbbrev taken
  have inside := two.inside inside (by omega) taken
  dsimp only
  split
  · exact onward_done inside _
  · have constant : Forward 0 debugAbbrev (if castForm form = .implicitConst then
        asserted "implicit_const_ok" debugAbbrev.readSleb128 else .ok (0,debugAbbrev)) := by
      split
      · exact (forward_sleb128 inside _).weaken (by omega)
      · exact forward_ok inside _
    refine constant.turn (by omega) 0 ?_
    intro implicitConst debugAbbrev taken
    exact onward_again (constant.inside inside (by omega) taken) _

theorem parseAttributeSpecs_forward (inside : Inside reader) (enough : reader.remaining.toNat < turns) :
    Forward 0 reader (parseAttributeSpecs turns reader) :=
  loop_forward (s:=([],reader)) inside
    (fun _ _ behind => (attributeSpecTurn_onward behind.2.2).weaken (by omega)) enough

theorem abbreviationTurn_onward {state : Abbreviations × ByteReader} (inside : Inside state.2)
    (enough : state.2.source.length < turns) : Onward 3 state.2 (abbreviationTurn turns state) := by
  obtain ⟨abbreviations,debugAbbrev⟩ := state
  have one := forward_uleb128 inside "code_ok"
  refine (one.turn (by omega) 2 ?_).weaken (by omega)
  intro abbreviationCode debugAbbrev taken
  have inside := one.inside inside (by omega) taken
  obtain ⟨source,_⟩ := one.moves _ _ taken
  dsimp only
  split
  · exact onward_done inside _
  · have two := forward_uleb128 inside "tag_ok"
    refine (two.turn (by omega) 1 ?_).weaken (by omega)
    intro tag debugAbbrev taken
    have inside := two.inside inside (by omega) taken
    obtain ⟨source',_⟩ := two.moves _ _ taken
    have three := forward_bool inside "has_children_ok"
    refine (three.turn (by omega) 0 ?_).weaken (by omega)
    intro hasChildren debugAbbrev taken
    have inside := three.inside inside (by omega) taken
    obtain ⟨source'',_⟩ := three.moves _ _ taken
    have specs : Forward 0 debugAbbrev (parseAttributeSpecs turns debugAbbrev) := by
      refine parseAttributeSpecs_forward inside ?_
      have short := short_of_inside inside
      rw [source'',source',source] at short
      omega
    refine specs.turn (by omega) 0 ?_
    intro attributeSpecs debugAbbrev taken
    exact onward_again (specs.inside inside (by omega) taken) _

theorem entryTurn_onward {context : UnitContext} {state : UnitState × ByteReader} (inside : Inside state.2)
    (forward : ForwardTurn context state) : Onward 1 state.2 (entryTurn context state) := by
  obtain ⟨unit,debugInfo⟩ := state
  unfold entryTurn
  dsimp only
  split
  · exact onward_done inside _
  · have one := forward_uleb128 inside "code_ok"
    refine (one.turn (by omega) 0 ?_).weaken (by omega)
    intro abbreviationCode debugInfo' taken
    have inside := one.inside inside (by omega) taken
    dsimp only
    split
    · cases unit.scopeStack with
      | nil => exact onward_done inside _
      | cons scope scopeStack => exact onward_again inside _
    · cases found : context.abbreviations.find abbreviationCode with
      | none => exact onward_error (stop_asserted _)
      | some declaration =>
          have attributes := attributes_forward context declaration.tag declaration.attributeSpecs inside
            (forward abbreviationCode debugInfo' declaration (asserted_taken taken) ‹_› found)
          dsimp only
          rw [bind_lastOf]
          refine attributes.turn (by omega) 0 ?_
          rintro ⟨entry,unit'⟩ debugInfo'' taken'
          exact onward_again (attributes.inside inside (by omega) taken') _

-- The loop over the entries of a unit, from an entry on.
theorem entries_forward {context : UnitContext} {s : UnitState × ByteReader} (inside : Inside s.2)
    (forward : ∀ t, Reaches (entryTurn context) s t → ForwardTurn context t) (enough : s.2.remaining.toNat < turns) :
    Forward 0 s.2 (loop .outOfSteps (entryTurn context) turns s) :=
  loop_forward inside (fun t reaches behind => entryTurn_onward behind.2.2 (forward t reaches)) enough

theorem parseAbbreviations_forward (inside : Inside reader) (enough : reader.source.length < turns) :
    Forward 0 reader (parseAbbreviations turns reader) := by
  have short := short_of_inside inside
  refine loop_forward (s:=([],reader)) inside (fun t _ behind => ?_) (by dsimp only; omega)
  exact (abbreviationTurn_onward behind.2.2 (by rwa [behind.1])).weaken (by omega)

end Loops

section Contents

theorem readAttributes_contents (specs : List AttributeSpec)
    (taken : readAttributes context tag specs entry unit reader = .ok (entry',unit',next)) :
    contents unit'.sections = contents unit.sections := by
  induction specs generalizing entry unit reader with
  | nil =>
      cases taken
      rfl
  | cons spec specs ih =>
      obtain ⟨⟨value,after⟩,_,taken⟩ := ok_of_bind taken
      obtain ⟨⟨entry'',unit''⟩,recorded,taken⟩ := ok_of_bind taken
      exact (ih taken).trans (recordAttribute_contents recorded)

-- The unit at either end of a turn.
def unitOf : BoundedLoops.Turn (UnitState × ByteReader) (UnitState × ByteReader) → UnitState
  | .again (unit,_) => unit
  | .done (unit,_) => unit

theorem entryTurn_contents (turned : entryTurn context (unit,reader) = .ok outcome) :
    contents (unitOf outcome).sections = contents unit.sections := by
  unfold entryTurn at turned
  dsimp only at turned
  split at turned
  · cases turned
    rfl
  · obtain ⟨⟨code,after⟩,_,turned⟩ := ok_of_bind turned
    dsimp only at turned
    split at turned
    · split at turned
      · cases turned
        rfl
      · cases turned
        rfl
    · split at turned
      · cases turned
      · obtain ⟨⟨entry,unit',after'⟩,taken,turned⟩ := ok_of_bind turned
        cases turned
        rw [unitOf,recordEntry_sections]
        exact readAttributes_contents _ taken

theorem walk_contents (walked : loop .outOfSteps (entryTurn context) turns (unit,reader) = .ok (unit',next)) :
    contents unit'.sections = contents unit.sections := by
  obtain ⟨⟨last,after⟩,reaches,ended⟩ := loop_returned turns walked
  have keep : ∀ t u, Reaches (entryTurn context) (unit,reader) t → contents t.1.sections = contents unit.sections →
      entryTurn context t = .ok (.again u) → contents u.1.sections = contents unit.sections :=
    fun _ _ _ same turned => (entryTurn_contents turned).trans same
  exact (entryTurn_contents ended).trans (reaches.keeps keep rfl)

end Contents

section Units

theorem header_forward {reader : ByteReader} (inside : Inside reader) :
    Forward 0 reader (parseCompilationUnitHeader reader) := by
  have one := forward_littleEndian inside "length_ok" (show 0 < 4 by decide)
  refine (one.bind 0 ?_).weaken (by omega)
  intro length reader taken
  have inside := one.inside inside (by omega) taken
  dsimp only
  split
  · exact forward_error (stop_asserted _)
  · have two := forward_littleEndian inside "version_ok" (show 0 < 2 by decide)
    refine (two.bind 0 ?_).weaken (by omega)
    intro version reader taken
    have inside := two.inside inside (by omega) taken
    dsimp only
    split
    · exact forward_error (stop_asserted _)
    · have three := forward_u8 inside "type_value_ok"
      refine (three.bind 0 ?_).weaken (by omega)
      intro type reader taken
      have inside := three.inside inside (by omega) taken
      have four := forward_u8 inside "address_size_ok"
      refine (four.bind 0 ?_).weaken (by omega)
      intro addressSize reader taken
      have inside := four.inside inside (by omega) taken
      have five := forward_littleEndian inside "abbreviation_offset_ok" (show 0 < 4 by decide)
      refine (five.bind 0 ?_).weaken (by omega)
      intro abbreviationOffset reader taken
      exact forward_ok (five.inside inside (by omega) taken) _

-- The walk over a unit begins at `reader`.
structure Begins (turns : Nat) (state : ParseState) (header : CompilationUnitHeader) (abbreviations : Abbreviations)
    (reader : ByteReader) : Prop where
  parsed : parseCompilationUnitHeader state.debugInfo = .ok (header,reader)
  declared : ∃ offset rest, normalizeSectionOffset state.sections.debugAbbrev header.abbreviationOffset = .ok offset ∧
    parseAbbreviations turns (ofSource (state.sections.debugAbbrev.bytes.drop offset)) = .ok (abbreviations,rest)

-- What has to hold of a unit: its end is an offset, and its entries go forward.
def ForwardUnit (turns : Nat) (state : ParseState) : Prop :=
  ∀ header abbreviations reader, Begins turns state header abbreviations reader →
    state.debugInfo.currentOffset + 4 + header.length < 2^63 ∧
    ∀ t, Reaches (entryTurn (contextOf state header abbreviations)) (.init state.sections,reader) t →
      ForwardTurn (contextOf state header abbreviations) t

-- Where the loop over the units stands: at or past the start of the section.
structure Between (sections : Sections) (debugInfo : ByteReader) (state : ParseState) : Prop where
  source : state.debugInfo.source = debugInfo.source
  low : 0 ≤ state.debugInfo.currentOffset
  sections : contents state.sections = contents sections

-- The walk of the unit that begins here.
theorem walk_forward {state : ParseState} (inside : Inside state.debugInfo) (enough : state.debugInfo.source.length < turns)
    (parsed : parseCompilationUnitHeader state.debugInfo = .ok (header,reader))
    (forward : ∀ t, Reaches (entryTurn context) (.init state.sections,reader) t → ForwardTurn context t) :
    Forward 0 reader (loop .outOfSteps (entryTurn context) turns (.init state.sections,reader)) := by
  have head := header_forward inside
  have ahead := head.inside inside (by omega) parsed
  obtain ⟨source,_⟩ := head.moves _ _ parsed
  have short := short_of_inside ahead
  rw [source] at short
  exact entries_forward ahead forward (by dsimp only; omega)

theorem unitTurn_stops {state : ParseState} (between : Between sections debugInfo state)
    (enough : sections.debugAbbrev.bytes.length < turns ∧ debugInfo.source.length < turns)
    (forward : ForwardUnit turns state) : Stops (unitTurn turns state) := by
  obtain ⟨source,low,same⟩ := between
  have table := contents_debugAbbrev same
  unfold unitTurn
  split
  · exact stops_ok _
  · rename_i left
    have inside : Inside state.debugInfo := ⟨low,by unfold ByteReader.remaining at left; omega⟩
    refine stops_bind (header_forward inside).stops ?_
    rintro ⟨header,reader⟩ parsed
    refine stops_bind (stops_normalize _ _) fun abbreviationOffset normalized => ?_
    refine stops_bind (parseAbbreviations_forward (ofSource_inside _) ?_).stops ?_
    · rw [table,ofSource,List.length_drop]
      omega
    · rintro ⟨abbreviations,rest⟩ declared
      refine stops_bind ?_ fun _ _ => stops_ok _
      obtain ⟨_,entries⟩ := forward header abbreviations reader ⟨parsed,abbreviationOffset,rest,normalized,declared⟩
      refine stops_bind (walk_forward inside (by rw [source]; exact enough.2) parsed entries).stops ?_
      rintro ⟨unit,after⟩ _
      exact stops_ok _

theorem unitEnd_offset {state : ParseState} {header : CompilationUnitHeader} (abbreviations : Abbreviations)
    (low : 0 ≤ state.debugInfo.currentOffset) (bound : state.debugInfo.currentOffset + 4 + header.length < 2^63) :
    toS64 (contextOf state header abbreviations).unitEnd = state.debugInfo.currentOffset + 4 + header.length := by
  have start : toU64 state.debugInfo.currentOffset = state.debugInfo.currentOffset := by
    unfold toU64
    omega
  have stop : (contextOf state header abbreviations).unitEnd =
    add64 (add64 (toU64 state.debugInfo.currentOffset) 4) header.length := rfl
  rw [stop,add64_of_lt (a:=toU64 _) (by omega),add64_of_lt (by omega),toS64_of_range (by omega) (by omega)]
  omega

theorem unitTurn_moves {state t : ParseState} (between : Between sections debugInfo state)
    (enough : debugInfo.source.length < turns) (forward : ForwardUnit turns state)
    (turned : unitTurn turns state = .ok (.again t)) :
    state.debugInfo.currentOffset < t.debugInfo.currentOffset ∧ 0 < state.debugInfo.remaining ∧
      Between sections debugInfo t := by
  obtain ⟨source,low,same⟩ := between
  unfold unitTurn at turned
  split at turned
  · cases turned
  · rename_i left
    have inside : Inside state.debugInfo := ⟨low,by unfold ByteReader.remaining at left; omega⟩
    obtain ⟨⟨header,reader⟩,parsed,turned⟩ := ok_of_bind turned
    obtain ⟨abbreviationOffset,normalized,turned⟩ := ok_of_bind turned
    obtain ⟨⟨abbreviations,rest⟩,declared,turned⟩ := ok_of_bind turned
    obtain ⟨⟨infos,unit,after⟩,walked,turned⟩ := ok_of_bind turned
    obtain ⟨⟨unit',after'⟩,walked,ended⟩ := ok_of_bind walked
    cases ended
    obtain ⟨bound,entries⟩ := forward header abbreviations reader ⟨parsed,abbreviationOffset,rest,normalized,declared⟩
    obtain ⟨source',_⟩ := (header_forward inside).moves _ _ parsed
    obtain ⟨source'',_⟩ := (walk_forward inside (by rw [source]; exact enough) parsed entries).moves _ _ walked
    have stop := unitEnd_offset abbreviations low bound
    cases turned
    refine ⟨?_,by omega,?_,?_,?_⟩
    · rw [afterUnit_offset,stop]
      omega
    · obtain ⟨bytes,place⟩ := after
      rw [afterUnit_source]
      exact source''.trans (source'.trans source)
    · rw [afterUnit_offset,stop]
      omega
    · rw [afterUnit_sections]
      exact (walk_contents walked).trans same

-- Every turn of the loop over the units stops or moves on.
theorem unitTurn_advances {state : ParseState} (between : Between sections debugInfo state)
    (enough : sections.debugAbbrev.bytes.length < turns ∧ debugInfo.source.length < turns)
    (forward : ForwardUnit turns state) : Advances (·.debugInfo) (Between sections debugInfo) (unitTurn turns) state := by
  refine ⟨unitTurn_stops between enough forward,?_⟩
  intro t turned
  obtain ⟨further,left,between'⟩ := unitTurn_moves between enough.2 forward turned
  exact ⟨between'.source.trans between.source.symm,further,left,between'⟩

-- Given enough turns, a parser stops with an assertion or returns.
def Terminates (result : Nat → Except Failure α) : Prop := ∃ bound, ∀ turns, bound < turns → Stops (result turns)

theorem parseAbbreviations_terminates {reader : ByteReader} (inside : Inside reader) :
    Terminates (parseAbbreviations · reader) ∧ GoesOn (·.2) attributeSpecTurn ([],reader) ∧
      ∀ turns, reader.source.length < turns → GoesOn (·.2) (abbreviationTurn turns) ([],reader) := by
  refine ⟨⟨reader.source.length,fun turns enough => (parseAbbreviations_forward inside enough).stops⟩,?_,?_⟩
  · exact loop_goesOn (s:=([],reader)) inside fun _ _ behind => (attributeSpecTurn_onward behind.2.2).weaken (by omega)
  · intro turns enough
    refine loop_goesOn (s:=([],reader)) inside fun _ _ behind => ?_
    exact (abbreviationTurn_onward behind.2.2 (by rwa [behind.1])).weaken (by omega)

-- Every entry that the walk over a unit comes to.
def ForwardWalk (context : UnitContext) (sections : Sections) (reader : ByteReader) : Prop :=
  ∀ t, Reaches (entryTurn context) (.init sections,reader) t → ForwardTurn context t

theorem walk_terminates {reader : ByteReader} (context : UnitContext) (sections : Sections) (inside : Inside reader)
    (forward : ForwardWalk context sections reader) :
    Terminates (parseCompilationUnitDebugInformationEntries · context sections reader) ∧
      GoesOn (·.2) (entryTurn context) (.init sections,reader) := by
  have short := short_of_inside inside
  refine ⟨⟨reader.source.length,fun turns enough => ?_⟩,?_⟩
  · have walked := entries_forward (s:=(.init sections,reader)) inside forward
      (show reader.remaining.toNat < turns by omega)
    refine stops_bind walked.stops ?_
    rintro ⟨unit,after⟩ _
    exact stops_ok _
  · exact loop_goesOn inside fun t reaches behind => entryTurn_onward behind.2.2 (forward t reaches)

-- Every unit that the loop over them comes to.
def ForwardUnits (sections : Sections) (reader : ByteReader) : Prop :=
  ∀ turns state, Reaches (unitTurn turns) ⟨[],0,false,sections,reader⟩ state → ForwardUnit turns state

theorem parseSubprograms_terminates {reader : ByteReader} (sections : Sections) (low : 0 ≤ reader.currentOffset)
    (forward : ForwardUnits sections reader) : Terminates (parseSubprograms · sections reader) ∧
      ∀ turns, sections.debugAbbrev.bytes.length < turns ∧ reader.source.length < turns →
        GoesOn (·.debugInfo) (unitTurn turns) ⟨[],0,false,sections,reader⟩ := by
  have start : Between sections reader ⟨[],0,false,sections,reader⟩ := ⟨rfl,low,rfl⟩
  have advances : ∀ turns, sections.debugAbbrev.bytes.length < turns ∧ reader.source.length < turns →
      ∀ t, Reaches (unitTurn turns) ⟨[],0,false,sections,reader⟩ t → Between sections reader t →
        Advances (·.debugInfo) (Between sections reader) (unitTurn turns) t :=
    fun turns enough t reaches between => unitTurn_advances between enough (forward turns t reaches)
  refine ⟨⟨sections.debugAbbrev.bytes.length + reader.source.length,fun turns enough => ?_⟩,?_⟩
  · have left : reader.remaining.toNat < turns := by
      unfold ByteReader.remaining ByteReader.size
      omega
    obtain ⟨t,_,_,ended⟩ := loop_stops (advances turns ⟨by omega,by omega⟩) start left
    obtain ⟨e,_,stop,failed⟩ | ⟨result,_,returned⟩ := ended
    · dsimp only
      rw [parseSubprograms,failed]
      exact stops_error stop
    · dsimp only
      rw [parseSubprograms,returned]
      exact stops_ok _
  · exact fun turns enough => goesOn_of_advances (advances turns enough) start

end Units

end DwarfProgress
