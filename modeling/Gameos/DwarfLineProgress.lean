import Gameos.DwarfProgress

-- How far the line table's parser moves its reader, and where every parser of
-- the debug sections ends.
namespace DwarfProgress
open MachineWords ByteReader ReaderRuns BoundedLoops Dwarf

-- A view whose every index is a byte of its source.
def Backed (view : View) : Prop := ∀ index, Stops (view.get index)

theorem byteIn_inside {source : List UInt8} {offset : Int} (low : 0 ≤ offset) (high : offset < source.length) :
    ∃ byte, byteIn source offset = .ok byte := by
  have bound : offset.toNat < source.length := by omega
  exact ⟨source[offset.toNat],by rw [byteIn,if_neg (by omega),List.getElem?_eq_getElem bound]⟩

theorem backed_of_read {reader : ByteReader} (inside : Inside reader) (taken : reader.readBytes count = some (view,next)) :
    Backed view := by
  unfold readBytes at taken
  split at taken
  · cases taken
  · cases taken
    intro index
    unfold View.get
    split
    · rename_i left bound
      obtain ⟨low,_⟩ := inside
      unfold ByteReader.remaining ByteReader.size at left
      have further : reader.currentOffset + index < reader.source.length := by
        dsimp only at bound
        omega
      obtain ⟨byte,found⟩ := byteIn_inside (by omega) further
      rw [found]
      exact stops_ok _
    · exact stops_error (stop_asserted _)

section Opcodes
variable {reader start : ByteReader}

-- What `rest` does, measured from `start`, in front of which `first` read.
theorem skip_forward (same : reader.source = start.source)
    (further : start.currentOffset + least ≤ reader.currentOffset + count) (message : String) (value : ByteReader → α) :
    Forward least start (do let next ← skipped message (reader.skip count); return (value next,next)) := by
  unfold ByteReader.skip
  split
  · exact forward_error (stop_asserted _)
  · rename_i room
    refine ⟨stops_ok _,?_⟩
    intro _ next ended
    cases ended
    have moved : (reader.advance count).currentOffset = reader.currentOffset + count := rfl
    have size : (reader.advance count).size = reader.size := rfl
    unfold ByteReader.remaining at room
    exact ⟨same,by omega,by omega⟩

theorem readAddress_forward (inside : Inside reader) (addressSize : Nat) :
    Forward 1 reader (readAddress addressSize reader) := by
  unfold readAddress
  split
  · exact forward_littleEndian inside _ (by decide)
  · split
    · exact forward_littleEndian inside _ (by decide)
    · exact forward_error (stop_unreachable _)

-- The same of a parse further on.
theorem Forward.since {result : Except Failure (α × ByteReader)} (forward : Forward least reader result)
    (same : reader.source = start.source) (further : start.currentOffset + more ≤ reader.currentOffset) :
    Forward (more + least) start result := by
  refine ⟨forward.stops,?_⟩
  intro value next ended
  obtain ⟨source,low,high⟩ := forward.moves value next ended
  exact ⟨source.trans same,by omega,high⟩

theorem skipOperands_forward (count : Nat) (inside : Inside reader) (value : α) :
    Forward 0 reader (do let next ← skipOperands count reader; return (value,next)) := by
  induction count generalizing reader with
  | zero => exact forward_ok inside _
  | succ count ih =>
      have one := forward_uleb128 inside "ok"
      cases taken : asserted "ok" reader.readUleb128 with
      | error fault =>
          rw [skipOperands,taken]
          exact forward_error (one.stops fault taken)
      | ok result =>
          obtain ⟨operand,after⟩ := result
          obtain ⟨source,low,_⟩ := one.moves _ _ taken
          rw [skipOperands,taken,ok_bind]
          exact ((ih (one.inside inside (by omega) taken)).since source low).weaken (by omega)

theorem stops_row (header : DebugLineHeader) (state : DebugLineState) (isEnd : Bool) : Stops (row header state isEnd) := by
  unfold row element
  refine stops_bind ?_ fun _ _ => stops_ok _
  split
  · exact stops_ok _
  · exact stops_error (stop_asserted _)

theorem stops_divide (dividend : Nat) (some : divisor ≠ 0) : Stops (divide dividend divisor) := by
  unfold divide
  rw [if_neg some]
  exact stops_ok _

-- The end an extended opcode announces lies behind its own start.
def ForwardExtended (header : DebugLineHeader) (start reader : ByteReader) : Prop :=
  ∀ length next, reader.readUleb128 = .ok (some (length,next)) →
    ∀ opcode last, next.readU8 = .ok (some (opcode,last)) →
      match castExtendedOpcode opcode.toNat with
      | .endSequence => True
      | .setAddress => ∀ address behind, readAddress header.addressSize last = .ok (address,behind) →
          start.currentOffset < behind.currentOffset + toS64 (sub64 (sub64 length header.addressSize) 1)
      | .other _ => start.currentOffset < last.currentOffset + toS64 (sub64 length 1)

-- No opcode divides by a zero of the header.
def ForwardStandard (header : DebugLineHeader) (opcode : Nat) : Prop :=
  match castStandardOpcode opcode with
  | .advancePc => header.maximumOperationsPerInstruction ≠ 0
  | .constAddPc => header.lineRange ≠ 0
  | _ => True

def ForwardOpcode (header : DebugLineHeader) (reader : ByteReader) : Prop :=
  ∀ opcode next, reader.readU8 = .ok (some (opcode,next)) →
    if opcode.toNat = 0 then ForwardExtended header reader next
    else if opcode.toNat < header.opcodeBase then ForwardStandard header opcode.toNat
    else header.lineRange ≠ 0 ∧ header.maximumOperationsPerInstruction ≠ 0

-- Reads `first`, then goes on as measured from `start`.
theorem extendedAction_forward (header : DebugLineHeader) (length : Nat) (state : DebugLineState) (opcode : ExtendedOpcode)
    (inside : Inside reader) (same : reader.source = start.source) (behind : start.currentOffset + 1 ≤ reader.currentOffset)
    (forward : match opcode with
      | .endSequence => True
      | .setAddress => ∀ address behind, readAddress header.addressSize reader = .ok (address,behind) →
          start.currentOffset < behind.currentOffset + toS64 (sub64 (sub64 length header.addressSize) 1)
      | .other _ => start.currentOffset < reader.currentOffset + toS64 (sub64 length 1)) :
    Forward 1 start (lastOf (extendedAction header length state reader opcode)) := by
  cases opcode with
  | endSequence =>
      rw [extendedAction]
      split
      · dsimp only
        rw [lastOf_bind]
        refine forward_pure_bind (stops_row header _ _) fun appended _ => ?_
        refine ⟨stops_ok _,?_⟩
        intro _ next ended
        cases ended
        exact ⟨same,behind,inside.2⟩
      · exact forward_error (stop_asserted _)
  | setAddress =>
      have reads := readAddress_forward inside header.addressSize
      rw [extendedAction,lastOf_bind]
      refine forward_pure_bind reads.stops ?_
      rintro ⟨address,after⟩ taken
      have inside' := reads.inside inside (by omega) taken
      obtain ⟨source,_⟩ := reads.moves _ _ taken
      dsimp only
      rw [lastOf_bind]
      exact skip_forward (source.trans same) (forward address after taken) "skip_ok" _
  | other value =>
      rw [extendedAction,lastOf_bind]
      exact skip_forward same forward "skip_ok" _

theorem extendedOpcode_forward (header : DebugLineHeader) (state : DebugLineState) (inside : Inside reader)
    (same : reader.source = start.source) (behind : start.currentOffset ≤ reader.currentOffset)
    (forward : ForwardExtended header start reader) : Forward 1 start (lastOf (extendedOpcode header state reader)) := by
  have one := forward_uleb128 inside "length_ok"
  rw [extendedOpcode,lastOf_bind]
  refine forward_pure_bind one.stops ?_
  rintro ⟨length,next⟩ taken
  have inside := one.inside inside (by omega) taken
  obtain ⟨source,low,_⟩ := one.moves _ _ taken
  have two := forward_u8 inside "extended_opcode_ok"
  dsimp only
  rw [lastOf_bind]
  refine forward_pure_bind two.stops ?_
  rintro ⟨opcode,last⟩ taken'
  obtain ⟨source',low',_⟩ := two.moves _ _ taken'
  exact extendedAction_forward header length state _ (two.inside inside (by omega) taken')
    (source'.trans (source.trans same)) (by dsimp only; omega)
    (forward length next (asserted_taken taken) opcode last (asserted_taken taken'))

-- An opcode with one operand.
theorem operand_forward {taken : Except Failure (ReadResult α)} (inside : Inside reader)
    (reads : Forward 1 reader (asserted message taken)) (change : α → DebugLineState) :
    Forward 0 reader (lastOf (do
      let (operand,next) ← asserted message taken
      return (change operand,(none : Option SourceRow),next))) := by
  rw [lastOf_bind]
  refine (reads.bind 0 ?_).weaken (by omega)
  intro operand next ended
  exact forward_ok (reads.inside inside (by omega) ended) _

theorem standardOpcode_forward (header : DebugLineHeader) (state : DebugLineState) (inside : Inside reader)
    (backed : Backed header.standardOpcodeLengths) (forward : ForwardStandard header opcode) :
    Forward 0 reader (lastOf (standardOpcode header opcode state reader)) := by
  unfold ForwardStandard at forward
  unfold standardOpcode
  generalize castStandardOpcode opcode = cast at forward ⊢
  cases cast with
  | copy =>
      dsimp only
      rw [lastOf_bind]
      exact forward_pure_bind (stops_row header _ _) fun _ _ => forward_ok inside _
  | advancePc =>
      have reads := forward_uleb128 inside "op_advance_ok"
      dsimp only
      rw [lastOf_bind]
      refine (reads.bind 0 ?_).weaken (by omega)
      intro opAdvance next ended
      dsimp only
      rw [lastOf_bind]
      exact forward_pure_bind (stops_divide _ forward) fun _ _ => forward_ok (reads.inside inside (by omega) ended) _
  | advanceLine => exact operand_forward inside (forward_sleb128 inside _) fun n => {state with line := toS32 (state.line + n)}
  | setFile => exact operand_forward inside (forward_uleb128 inside _) fun n => {state with fileIndex := n % 2^32}
  | setColumn => exact operand_forward inside (forward_uleb128 inside _) fun n => {state with column := n % 2^32}
  | negateStmt | setBasicBlock | setPrologueEnd | setEpilogueBegin => exact forward_ok inside _
  | constAddPc =>
      dsimp only
      rw [lastOf_bind]
      exact forward_pure_bind (stops_divide _ forward) fun _ _ => forward_ok inside _
  | fixedAdvancePc =>
      exact operand_forward inside (forward_littleEndian inside _ (by decide)) fun n =>
        {state with address := add64 state.address n,opIndex := 0}
  | setIsa => exact operand_forward inside (forward_uleb128 inside _) fun n => {state with isa := n % 2^32}
  | other value =>
      dsimp only
      rw [lastOf_bind]
      refine forward_pure_bind (backed _) fun operandCount _ => ?_
      rw [lastOf_bind]
      exact skipOperands_forward operandCount.toNat inside (state,none)

theorem specialOpcode_forward (header : DebugLineHeader) (state : DebugLineState) (inside : Inside reader)
    (usable : header.lineRange ≠ 0 ∧ header.maximumOperationsPerInstruction ≠ 0) :
    Forward 0 reader (lastOf (specialOpcode header opcode state reader)) := by
  rw [specialOpcode,lastOf_bind]
  refine forward_pure_bind (stops_divide _ usable.1) fun advance _ => ?_
  rw [lastOf_bind]
  refine forward_pure_bind (stops_divide _ usable.2) fun opIndex _ => ?_
  dsimp only
  rw [lastOf_bind]
  exact forward_pure_bind (stops_row header _ _) fun _ _ => forward_ok inside _

-- Every opcode that is carried out takes the reader further.
theorem lineTurn_forward (header : DebugLineHeader) (state : DebugLineState) (inside : Inside reader)
    (backed : Backed header.standardOpcodeLengths) (forward : ForwardOpcode header reader) :
    Forward 1 reader (lastOf (lineTurn header state reader)) := by
  have one := forward_u8 inside "ok"
  rw [lineTurn,lastOf_bind]
  refine forward_pure_bind one.stops ?_
  rintro ⟨opcode,next⟩ taken
  have inside' := one.inside inside (by omega) taken
  obtain ⟨source,low,_⟩ := one.moves _ _ taken
  have here := forward opcode next (asserted_taken taken)
  dsimp only
  split
  · rename_i zero
    rw [if_pos zero] at here
    exact extendedOpcode_forward header state inside' source (by omega) here
  · rename_i some
    rw [if_neg some] at here
    split
    · rename_i below
      rw [if_pos below] at here
      exact (standardOpcode_forward header state inside' backed here).since source low
    · rename_i above
      rw [if_neg above] at here
      exact (specialOpcode_forward header state inside' here).since source low

end Opcodes

section Tables
variable {reader : ByteReader} {addressSize : Nat} {sections : Sections}

def ForwardFields (addressSize : Nat) (sections : Sections) : List EntryFormat → ByteReader → Prop
  | [], _ => True
  | format :: formats, reader =>
    ForwardValue addressSize sections (reader.source.length+1) format.form reader ∧
      ∀ value next, readAttributeValue addressSize 0 sections (reader.source.length+1) format.form reader = .ok (value,next) →
        ForwardFields addressSize sections formats next

def ForwardEntries (addressSize : Nat) (sections : Sections) (formats : List EntryFormat) : Nat → ByteReader → Prop
  | 0, _ => True
  | count+1, reader => ForwardFields addressSize sections formats reader ∧
      ∀ entry next, readEntryFields addressSize sections formats ⟨none,none⟩ reader = .ok (entry,next) →
        ForwardEntries addressSize sections formats count next

def ForwardPaths (addressSize : Nat) (sections : Sections) (formats : List EntryFormat) (reader : ByteReader) : Prop :=
  ∀ count next, reader.readUleb128 = .ok (some (count,next)) → ForwardEntries addressSize sections formats count next

-- What has to hold of the directories and of the file names behind them.
def ForwardTables (addressSize : Nat) (sections : Sections) (reader : ByteReader) : Prop :=
  ∀ formats next, parseEntryFormats reader = .ok (formats,next) → ForwardPaths addressSize sections formats next ∧
    ∀ paths indices next', parseDirectoriesOrFileNames next addressSize formats sections = .ok (paths,indices,next') →
      ∀ formats' last, parseEntryFormats next' = .ok (formats',last) → ForwardPaths addressSize sections formats' last

theorem readEntryFormats_forward (count : Nat) (inside : Inside reader) :
    Forward 0 reader (readEntryFormats count reader) := by
  induction count generalizing reader with
  | zero => exact forward_ok inside _
  | succ count ih =>
      have one := forward_uleb128 inside "line_content_type_ok"
      refine (one.bind 0 ?_).weaken (by omega)
      intro type next taken
      have inside := one.inside inside (by omega) taken
      have two := forward_uleb128 inside "form_ok"
      refine (two.bind 0 ?_).weaken (by omega)
      intro form next' taken
      have inside := two.inside inside (by omega) taken
      have rest := ih inside
      refine (rest.bind 0 ?_).weaken (by omega)
      intro formats last taken
      exact forward_ok (rest.inside inside (by omega) taken) _

theorem parseEntryFormats_forward (inside : Inside reader) : Forward 0 reader (parseEntryFormats reader) := by
  have one := forward_u8 inside "entry_format_count_ok"
  refine (one.bind 0 ?_).weaken (by omega)
  intro count next taken
  exact readEntryFormats_forward count.toNat (one.inside inside (by omega) taken)

theorem readEntryFields_forward (formats : List EntryFormat) (entry : PathEntry) (inside : Inside reader)
    (forward : ForwardFields addressSize sections formats reader) :
    Forward 0 reader (readEntryFields addressSize sections formats entry reader) := by
  induction formats generalizing entry reader with
  | nil => exact forward_ok inside _
  | cons format formats ih =>
      obtain ⟨here,rest⟩ := forward
      have reads : Forward 0 reader (readAttributeValue addressSize 0 sections (reader.source.length+1) format.form reader) :=
        forward_value _ inside (short_of_inside inside) here
      refine (reads.bind 0 ?_).weaken (by omega)
      intro value next taken
      have more : ∀ entry', Forward 0 next (readEntryFields addressSize sections formats entry' next) :=
        fun entry' => ih entry' (reads.inside inside (by omega) taken) (rest value next taken)
      dsimp only
      split
      · split
        · exact forward_error (stop_asserted _)
        · exact more _
      · exact forward_error (stop_asserted _)
      · split
        · exact forward_error (stop_asserted _)
        · exact more _
      · exact forward_error (stop_asserted _)
      · exact more _

theorem readEntries_forward (formats : List EntryFormat) (count : Nat) (inside : Inside reader)
    (forward : ForwardEntries addressSize sections formats count reader) :
    Forward 0 reader (lastOf (readEntries addressSize sections formats count reader)) := by
  induction count generalizing reader with
  | zero => exact forward_ok inside _
  | succ count ih =>
      obtain ⟨here,rest⟩ := forward
      have reads := readEntryFields_forward formats ⟨none,none⟩ inside here
      rw [readEntries,lastOf_bind]
      refine (reads.bind 0 ?_).weaken (by omega)
      intro entry next taken
      have inside' := reads.inside inside (by omega) taken
      dsimp only
      cases entry.path with
      | none => exact forward_error (stop_asserted _)
      | some path =>
          have more := ih inside' (rest entry next taken)
          dsimp only
          rw [lastOf_bind,bind_lastOf]
          refine (more.bind 0 ?_).weaken (by omega)
          rintro ⟨paths,indices⟩ last taken
          exact forward_ok (more.inside inside' (by omega) taken) _

theorem parseDirectoriesOrFileNames_forward (formats : List EntryFormat) (inside : Inside reader)
    (forward : ForwardPaths addressSize sections formats reader) :
    Forward 0 reader (lastOf (parseDirectoriesOrFileNames reader addressSize formats sections)) := by
  have one := forward_uleb128 inside "count_ok"
  rw [parseDirectoriesOrFileNames,lastOf_bind]
  refine (one.bind 0 ?_).weaken (by omega)
  intro count next taken
  exact readEntries_forward formats count (one.inside inside (by omega) taken) (forward count next (asserted_taken taken))

theorem stops_element (list : List α) (index : Nat) : Stops (element list index) := by
  unfold element
  split
  · exact stops_ok _
  · exact stops_error (stop_asserted _)

theorem stops_joinDirectories (directories fileNames : List (List UInt8)) (indices : List Nat) :
    Stops (joinDirectories directories fileNames indices) := by
  induction fileNames generalizing indices with
  | nil => exact stops_ok _
  | cons fileName fileNames ih =>
      cases indices with
      | nil => exact stops_error (stop_asserted _)
      | cons index indices =>
          rw [joinDirectories]
          have more : ∀ joined, Stops (do
              let rest ← joinDirectories directories fileNames indices
              return joined :: rest) := fun joined => stops_bind (ih indices) fun _ _ => stops_ok _
          split
          · exact more fileName
          · exact stops_bind (stops_element directories index) fun _ _ => more _

theorem parseTables_forward (inside : Inside reader) (forward : ForwardTables addressSize sections reader) :
    Forward 0 reader (parseTables reader addressSize sections) := by
  have one := parseEntryFormats_forward inside
  refine (one.bind 0 ?_).weaken (by omega)
  intro formats next taken
  have inside := one.inside inside (by omega) taken
  obtain ⟨here,rest⟩ := forward formats next taken
  have two := parseDirectoriesOrFileNames_forward formats inside here
  dsimp only
  rw [bind_lastOf]
  refine (two.bind 0 ?_).weaken (by omega)
  rintro ⟨paths,indices⟩ next' taken'
  have inside := two.inside inside (by omega) taken'
  have three := parseEntryFormats_forward inside
  refine (three.bind 0 ?_).weaken (by omega)
  intro formats' last taken
  have inside := three.inside inside (by omega) taken
  have paths' := rest paths indices next' (lastOf_taken taken') formats' last taken
  have four := parseDirectoriesOrFileNames_forward formats' inside paths'
  dsimp only
  rw [bind_lastOf]
  refine (four.bind 0 ?_).weaken (by omega)
  rintro ⟨fileNames,fileIndices⟩ after taken
  refine forward_pure_bind (stops_joinDirectories paths fileNames fileIndices) fun joined _ => ?_
  exact forward_ok (four.inside inside (by omega) taken) _

end Tables

section Header
variable {reader : ByteReader}

-- The reader of a value of fixed width is that many bytes further.
theorem littleEndian_next (taken : reader.readLittleEndian width = .ok (some (value,next))) :
    next = reader.advance width := by
  unfold readLittleEndian at taken
  split at taken
  · cases taken
  · obtain ⟨bytes,_,taken⟩ := ok_of_bind taken
    cases taken
    rfl

theorem u8_next (taken : reader.readU8 = .ok (some (value,next))) : next = reader.advance 1 := by
  unfold readU8 at taken
  split at taken
  · cases taken
  · obtain ⟨byte,_,taken⟩ := ok_of_bind taken
    cases taken
    rfl

theorem bool_next (taken : reader.readBool = .ok (some (value,next))) : next = reader.advance 1 := by
  obtain ⟨result,read,taken⟩ := ok_of_bind taken
  cases result with
  | none => cases taken
  | some pair =>
      cases taken
      exact u8_next read

theorem s8_next (taken : reader.readS8 = .ok (some (value,next))) : next = reader.advance 1 := by
  obtain ⟨result,read,taken⟩ := ok_of_bind taken
  cases result with
  | none => cases taken
  | some pair =>
      cases taken
      exact u8_next read

theorem bytes_next (taken : reader.readBytes count = some (view,next)) : next = reader.advance count := by
  unfold readBytes at taken
  split at taken
  · cases taken
  · cases taken
    rfl

-- The address size and the opcode base lie 6 and 17 bytes into the header; one
-- byte less than the opcode base lies between it and the tables.
def ForwardHeader (sections : Sections) (reader : ByteReader) : Prop :=
  ∀ addressSize opcodeBase next next', (reader.advance 6).readU8 = .ok (some (addressSize,next)) →
    (reader.advance 17).readU8 = .ok (some (opcodeBase,next')) →
    ForwardTables addressSize.toNat sections (reader.advance (17 + opcodeBase.toNat))

-- A header that goes forward and whose opcode lengths are bytes of the section.
structure Headed (reader : ByteReader) (result : Except Failure (DebugLineHeader × ByteReader)) : Prop where
  forward : Forward 0 reader result
  backed : ∀ header next, result = .ok (header,next) → Backed header.standardOpcodeLengths

theorem headed_error (stop : Stop fault) : Headed reader (.error fault) :=
  ⟨forward_error stop,fun _ _ wrong => nomatch wrong⟩

-- A field of the header, `n` bytes into it.
theorem headed_field {taken : Except Failure (ReadResult α)} {rest : α × ByteReader → Except Failure (DebugLineHeader × ByteReader)}
    (inside : Inside (reader.advance n)) (reads : Forward 1 (reader.advance n) (asserted message taken))
    (next : ∀ value last, taken = .ok (some (value,last)) → last = (reader.advance n).advance width) (place : n + width = m)
    (more : ∀ value, taken = .ok (some (value,reader.advance m)) → Inside (reader.advance m) →
      Headed reader (rest (value,reader.advance m))) : Headed reader (asserted message taken >>= rest) := by
  cases result : asserted message taken with
  | error fault => exact headed_error (reads.stops fault result)
  | ok pair =>
      obtain ⟨value,last⟩ := pair
      have same := next value last (asserted_taken result)
      rw [advance_advance,place] at same
      subst same
      exact more value (asserted_taken result) (reads.inside inside (by omega) result)

theorem headed_u8 {rest : UInt8 × ByteReader → Except Failure (DebugLineHeader × ByteReader)}
    (inside : Inside (reader.advance n)) (message : String) (place : n + 1 = m)
    (more : ∀ value, (reader.advance n).readU8 = .ok (some (value,reader.advance m)) → Inside (reader.advance m) →
      Headed reader (rest (value,reader.advance m))) : Headed reader (asserted message (reader.advance n).readU8 >>= rest) :=
  headed_field inside (forward_u8 inside message) (fun _ _ => u8_next) place more

theorem headed_littleEndian {width : Nat} {rest : Nat × ByteReader → Except Failure (DebugLineHeader × ByteReader)}
    (inside : Inside (reader.advance n)) (message : String) (positive : 0 < width) (place : n + (width : Int) = m)
    (more : ∀ value, Inside (reader.advance m) → Headed reader (rest (value,reader.advance m))) :
    Headed reader (asserted message ((reader.advance n).readLittleEndian width) >>= rest) :=
  headed_field inside (forward_littleEndian inside message positive) (fun _ _ => littleEndian_next) place
    fun value _ => more value

theorem parseDebugLineHeader_headed (inside : Inside reader) (forward : ForwardHeader sections reader) :
    Headed reader (parseDebugLineHeader reader sections) := by
  have start := inside.1
  have origin : reader.advance 0 = reader := by simp only [advance,Int.add_zero]
  rw [← origin] at inside
  unfold parseDebugLineHeader
  rw [show asserted "unit_length_ok" reader.readU32 = asserted "unit_length_ok" ((reader.advance 0).readLittleEndian 4) by
    rw [origin]; rfl]
  refine headed_littleEndian (m:=4) inside _ (show 0 < 4 by decide) rfl fun unitLength inside => ?_
  refine headed_littleEndian (m:=6) inside _ (show 0 < 2 by decide) rfl fun version inside => ?_
  dsimp only
  split
  · exact headed_error (stop_asserted _)
  refine headed_u8 (m:=7) inside _ rfl fun addressSize sized inside => ?_
  refine headed_u8 (m:=8) inside _ rfl fun segmentSelectorSize _ inside => ?_
  refine headed_littleEndian (m:=12) inside _ (show 0 < 4 by decide) rfl fun headerLength inside => ?_
  refine headed_u8 (m:=13) inside _ rfl fun minimumInstructionLength _ inside => ?_
  refine headed_u8 (m:=14) inside _ rfl fun maximumOperationsPerInstruction _ inside => ?_
  refine headed_field (m:=15) inside (forward_bool inside _) (fun _ _ => bool_next) rfl fun defaultIsStmt _ inside => ?_
  refine headed_field (m:=16) inside (forward_s8 inside _) (fun _ _ => s8_next) rfl fun lineBase _ inside => ?_
  refine headed_u8 (m:=17) inside _ rfl fun lineRange _ inside => ?_
  refine headed_u8 (m:=18) inside _ rfl fun opcodeBase based inside => ?_
  have lengths := forward_bytes (reader.advance 18) ((opcodeBase.toNat : Int) - 1)
    "standard_opcode_lengths_ok"
  dsimp only
  cases taken : asserted "standard_opcode_lengths_ok" (.ok ((reader.advance 18).readBytes ((opcodeBase.toNat : Int) - 1))) with
  | error fault => exact headed_error (lengths.stops fault taken)
  | ok pair =>
      obtain ⟨view,last⟩ := pair
      obtain ⟨_,low,high⟩ := lengths.moves view last taken
      have read := Except.ok.inj (asserted_taken taken)
      have same := bytes_next read
      rw [advance_advance,show (18:Int) + ((opcodeBase.toNat : Int) - 1) = 17 + opcodeBase.toNat by omega] at same
      subst same
      have further : (reader.advance (17 + opcodeBase.toNat)).currentOffset = reader.currentOffset + (17 + opcodeBase.toNat) := rfl
      have inside' : Inside (reader.advance (17 + opcodeBase.toNat)) := ⟨by omega,high⟩
      have tables := parseTables_forward inside' (forward addressSize opcodeBase _ _ sized based)
      rw [ok_bind]
      dsimp only
      have ahead : reader.currentOffset + 0 ≤ (reader.advance (17 + opcodeBase.toNat)).currentOffset := by omega
      refine ⟨?_,?_⟩
      · have source : (reader.advance (17 + opcodeBase.toNat)).source = reader.source := rfl
        refine (Forward.since ?_ source ahead).weaken (show (0:Int) ≤ 0 + 0 by decide)
        refine (tables.bind 0 ?_).weaken (show (0:Int) ≤ 0 + 0 by decide)
        intro result last taken
        exact forward_ok (tables.inside inside' (by omega) taken) _
      · intro header next ended
        obtain ⟨⟨result,after⟩,_,ended⟩ := ok_of_bind ended
        cases ended
        exact backed_of_read inside read

end Header

section LineTable
variable {reader : ByteReader}

-- One turn of the loop over the opcodes, without the row it appends.
def lineStep (header : DebugLineHeader) (unitEnd : Nat) (s : DebugLineState × ByteReader) :
    Except Failure (BoundedLoops.Turn (DebugLineState × ByteReader) (DebugLineState × ByteReader)) := do
  if toU64 s.2.currentOffset < unitEnd then
    let (state,_,debugLine) ← lineTurn header s.1 s.2
    return .again (state,debugLine)
  else return .done s

theorem lineLoop_loop (header : DebugLineHeader) (unitEnd steps : Nat) (s : DebugLineState × ByteReader) :
    (lineLoop header unitEnd steps s.1 s.2).map (·.2) =
      (loop .outOfSteps (lineStep header unitEnd) steps s).map (·.2) := by
  induction steps generalizing s with
  | zero => rfl
  | succ steps ih =>
      rw [lineLoop,loop,lineStep]
      split
      · cases turned : lineTurn header s.1 s.2 with
        | error fault => rfl
        | ok turn =>
            obtain ⟨state,appended,debugLine⟩ := turn
            have rest := ih (state,debugLine)
            show (lineLoop header unitEnd steps state debugLine >>= _).map _ = _
            cases looped : lineLoop header unitEnd steps state debugLine with
            | error fault =>
                rw [looped] at rest
                exact rest
            | ok result =>
                rw [looped] at rest
                exact rest
      · rfl

theorem stops_of_map {result : Except Failure α} {f : α → β} (stops : Stops (result.map f)) : Stops result := by
  cases result with
  | error fault => exact stops_error (stops fault rfl)
  | ok value => exact stops_ok value

theorem lineStep_onward (header : DebugLineHeader) (unitEnd : Nat) (s : DebugLineState × ByteReader) (inside : Inside s.2)
    (backed : Backed header.standardOpcodeLengths) (forward : ForwardOpcode header s.2) :
    Onward 1 s.2 (lineStep header unitEnd s) := by
  unfold lineStep
  split
  · have turn := lineTurn_forward header s.1 inside backed forward
    rw [bind_lastOf]
    refine (turn.turn (by omega) 0 ?_).weaken (by omega)
    rintro ⟨state,appended⟩ debugLine taken
    exact onward_again (turn.inside inside (by omega) taken) _
  · exact onward_done inside _

-- What has to hold of a line table: its header's values and its opcodes.
def ForwardLines (sections : Sections) (debugLineOffset : Nat) : Prop :=
  ∀ offset reader, normalizeSectionOffset sections.debugLine debugLineOffset = .ok offset →
    (ofSource sections.debugLine.bytes).skip offset = some reader →
    ForwardHeader sections reader ∧
    ∀ header next, parseDebugLineHeader reader sections = .ok (header,next) →
      ∀ s, Reaches (lineStep header (offset + 4 + header.unitLength))
        (.ofDefault header.defaultValueOfIsStmtRegister,next) s → ForwardOpcode header s.2

theorem lineLoop_stops (header : DebugLineHeader) (unitEnd : Nat) (state : DebugLineState) (inside : Inside reader)
    (backed : Backed header.standardOpcodeLengths)
    (forward : ∀ s, Reaches (lineStep header unitEnd) (state,reader) s → ForwardOpcode header s.2)
    (enough : reader.source.length < steps) : Stops (lineLoop header unitEnd steps state reader) := by
  have short := short_of_inside inside
  have looped : Forward 0 reader (loop .outOfSteps (lineStep header unitEnd) steps (state,reader)) :=
    loop_forward (s:=(state,reader)) inside
      (fun s reaches behind => lineStep_onward header unitEnd s behind.2.2 backed (forward s reaches)) (by dsimp only; omega)
  have same := lineLoop_loop header unitEnd steps (state,reader)
  refine stops_of_map (f:=(·.2)) ?_
  rw [same]
  intro fault failed
  cases result : loop .outOfSteps (lineStep header unitEnd) steps (state,reader) with
  | error fault' =>
      rw [result] at failed
      cases failed
      exact looped.stops fault result
  | ok value =>
      rw [result] at failed
      cases failed

theorem parseLineTable_stops (sections : Sections) (debugLineOffset : Nat) (forward : ForwardLines sections debugLineOffset)
    (enough : sections.debugLine.bytes.length < steps) : Stops (parseLineTable steps sections debugLineOffset) := by
  refine stops_bind (stops_normalize _ _) fun offset normalized => ?_
  have inside := ofSource_inside sections.debugLine.bytes
  cases taken : (ofSource sections.debugLine.bytes).skip offset with
  | none => exact stops_error (stop_asserted _)
  | some reader =>
      obtain ⟨source,_,inside⟩ := skip_inside inside (Int.natCast_nonneg _) taken
      obtain ⟨head,opcodes⟩ := forward offset reader normalized taken
      have headed := parseDebugLineHeader_headed inside head
      rw [show skipped "skip_ok" (some reader) = .ok reader from rfl,ok_bind]
      refine stops_bind headed.forward.stops ?_
      rintro ⟨header,next⟩ parsed
      obtain ⟨source',_⟩ := headed.forward.moves _ _ parsed
      have looped := lineLoop_stops header (offset + 4 + header.unitLength) (.ofDefault header.defaultValueOfIsStmtRegister)
        (headed.forward.inside inside (by omega) parsed) (headed.backed header next parsed) (opcodes header next parsed)
        (show next.source.length < steps by rw [source',source]; exact enough)
      dsimp only
      split
      · exact stops_error (stop_asserted _)
      · split
        · exact stops_error (stop_asserted _)
        · refine stops_bind looped ?_
          rintro ⟨rows,last⟩ _
          dsimp only
          split
          · exact stops_error (stop_asserted _)
          · exact stops_ok _

-- The loop over the opcodes of every header that is parsed there.
def LinesGoOn (sections : Sections) (debugLineOffset : Nat) : Prop :=
  ∀ offset reader header next, normalizeSectionOffset sections.debugLine debugLineOffset = .ok offset →
    (ofSource sections.debugLine.bytes).skip offset = some reader →
    parseDebugLineHeader reader sections = .ok (header,next) →
    GoesOn (·.2) (lineStep header (offset + 4 + header.unitLength)) (.ofDefault header.defaultValueOfIsStmtRegister,next)

theorem parseLineTable_terminates (sections : Sections) (debugLineOffset : Nat)
    (forward : ForwardLines sections debugLineOffset) :
    Terminates (parseLineTable · sections debugLineOffset) ∧ LinesGoOn sections debugLineOffset := by
  refine ⟨⟨_,fun turns enough => parseLineTable_stops sections debugLineOffset forward enough⟩,?_⟩
  intro offset reader header next normalized taken parsed
  obtain ⟨_,_,inside⟩ := skip_inside (ofSource_inside sections.debugLine.bytes) (Int.natCast_nonneg _) taken
  obtain ⟨head,opcodes⟩ := forward offset reader normalized taken
  have headed := parseDebugLineHeader_headed inside head
  exact loop_goesOn (headed.forward.inside inside (by omega) parsed) fun s reaches behind =>
    lineStep_onward header _ s behind.2.2 (headed.backed header next parsed) (opcodes header next parsed s reaches)

-- A unit of one entry, and a line table of one opcode that nobody knows.
def smallSections : Sections where
  debugInfo := ⟨0,[10,0,0,0,5,0,1,8,0,0,0,0,1,5]⟩
  debugAbbrev := ⟨0,[1,0x11,0,0x13,0x0b,0,0,0]⟩
  debugLine := ⟨0,[21,0,0,0,5,0,8,0,10,0,0,0,1,1,1,0,1,1,0,0,0,0,0,1,3]⟩
  debugStr := ⟨0,[]⟩
  debugLineStr := ⟨0,[]⟩
  debugStrOffsets := ⟨0,[]⟩
  debugAddr := ⟨0,[]⟩
  debugStrOffsetsBase := 0
  debugAddrBase := 0

def smallContext : UnitContext := ⟨0,14,[(1,⟨.compileUnit,false,[⟨.other 0x13,.data1,0⟩]⟩)],8⟩

def plainHeader (lines : List UInt8) (unitLength : Nat) : DebugLineHeader where
  unitLength := unitLength
  version := 5
  addressSize := 8
  segmentSelectorSize := 0
  headerLength := 10
  minimumInstructionLength := 1
  maximumOperationsPerInstruction := 1
  defaultValueOfIsStmtRegister := true
  lineBase := 0
  lineRange := 1
  opcodeBase := 1
  standardOpcodeLengths := ⟨lines,18,0⟩
  tables := ⟨[],[],[],[]⟩

-- A reader of the line table of `smallSections`.
def smallLine (offset : Int) : ByteReader := ⟨smallSections.debugLine.bytes,offset⟩

theorem smallLine_header : ForwardHeader smallSections (smallLine 0) := by
  intro addressSize opcodeBase next next' sized based
  have sized' : ((smallLine 0).advance 6).readU8 = .ok (some (8,smallLine 7)) := by decide
  have based' : ((smallLine 0).advance 17).readU8 = .ok (some (1,smallLine 18)) := by decide
  rw [sized'] at sized
  rw [based'] at based
  cases sized
  cases based
  have formats1 : parseEntryFormats ((smallLine 0).advance (17 + (1 : UInt8).toNat)) = .ok ([],smallLine 19) := by
    decide
  have count1 : (smallLine 19).readUleb128 = .ok (some (0,smallLine 20)) := by decide
  have paths1 : parseDirectoriesOrFileNames (smallLine 19) (8 : UInt8).toNat [] smallSections = .ok ([],[],smallLine 20) := by
    decide
  have formats2 : parseEntryFormats (smallLine 20) = .ok ([],smallLine 21) := by decide
  have count2 : (smallLine 21).readUleb128 = .ok (some (0,smallLine 22)) := by decide
  intro formats next parsed
  rw [formats1] at parsed
  cases parsed
  refine ⟨?_,?_⟩
  · intro count next' taken
    rw [count1] at taken
    cases taken
    exact trivial
  · intro paths indices next' named formats' last parsed
    rw [paths1] at named
    cases named
    rw [formats2] at parsed
    cases parsed
    intro count next' taken
    rw [count2] at taken
    cases taken
    exact trivial

theorem smallLine_opcodes (reaches : Reaches (lineStep (plainHeader smallSections.debugLine.bytes 21) 25)
    (.ofDefault true,smallLine 22) s) : ForwardOpcode (plainHeader smallSections.debugLine.bytes 21) s.2 := by
  have first : lineStep (plainHeader smallSections.debugLine.bytes 21) 25 (.ofDefault true,smallLine 22) =
      .ok (.again (.ofDefault true,smallLine 25)) := by decide
  have last : lineStep (plainHeader smallSections.debugLine.bytes 21) 25 (.ofDefault true,smallLine 25) =
      .ok (.done (.ofDefault true,smallLine 25)) := by decide
  have opcode1 : (smallLine 22).readU8 = .ok (some (0,smallLine 23)) := by decide
  have length1 : (smallLine 23).readUleb128 = .ok (some (1,smallLine 24)) := by decide
  have extended1 : (smallLine 24).readU8 = .ok (some (3,smallLine 25)) := by decide
  have opcode2 : (smallLine 25).readU8 = .ok none := by decide
  intro opcode next taken
  obtain rfl | ⟨u,step,rest⟩ := reaches.first
  · rw [opcode1] at taken
    cases taken
    rw [if_pos (by decide)]
    intro length next taken extended last taken'
    rw [length1] at taken
    cases taken
    rw [extended1] at taken'
    cases taken'
    exact (by decide : (smallLine 22).currentOffset < (smallLine 25).currentOffset + toS64 (sub64 1 1))
  · rw [first] at step
    cases step
    obtain rfl | ⟨u,step,rest⟩ := rest.first
    · rw [opcode2] at taken
      cases taken
    · rw [last] at step
      cases step

-- An extended opcode that announces 2^64 - 11 bytes: the reader goes back to it.
def backLines : List UInt8 := [30,0,0,0,5,0,8,0,10,0,0,0,1,1,1,0,1,1,0,0,0,0,
  0,0xf5,0xff,0xff,0xff,0xff,0xff,0xff,0xff,0xff,0x01,3]

def linesOnly (bytes : List UInt8) : Sections :=
  ⟨⟨0,[]⟩,⟨0,[]⟩,⟨0,bytes⟩,⟨0,[]⟩,⟨0,[]⟩,⟨0,[]⟩,⟨0,[]⟩,0,0⟩

theorem back_loop (steps : Nat) :
    lineLoop (plainHeader backLines 30) 34 steps (.ofDefault true) ⟨backLines,22⟩ = .error .outOfSteps := by
  have turned : lineTurn (plainHeader backLines 30) (.ofDefault true) ⟨backLines,22⟩ = .ok (.ofDefault true,none,⟨backLines,22⟩) := by
    decide
  induction steps with
  | zero => rfl
  | succ steps ih =>
      rw [lineLoop,if_pos (by decide),turned,ok_bind]
      dsimp only
      rw [ih]
      rfl

end LineTable

end DwarfProgress
