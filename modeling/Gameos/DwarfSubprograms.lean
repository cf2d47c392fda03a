import Gameos.DwarfUnits

-- Which subprograms a unit describes, and when the walk over it gives them.
namespace DwarfSubprograms
open MachineWords ByteReader BoundedLoops Dwarf LineProgram DwarfEncoding DwarfAbbreviations DwarfWalk DwarfUnits

section Tables

-- A string and a number at an offset of a section.
def stringAt (bytes : List UInt8) (offset : Nat) : Option (List UInt8) :=
  if offset ≤ bytes.length then cstring (bytes.drop offset) else none

def wordAt (width : Nat) (bytes : List UInt8) (offset : Nat) : Option Nat :=
  if offset + width ≤ bytes.length then some (littleEndian ((bytes.drop offset).take width)) else none

def textOf (sections : Sections) : Content → Option (List UInt8)
  | .text bytes => some bytes
  | .textAt offset => stringAt sections.debugStr.bytes offset
  | .lineTextAt offset => stringAt sections.debugLineStr.bytes offset
  | .textIndex index => (wordAt 4 sections.debugStrOffsets.bytes (sections.debugStrOffsetsBase + 4 * index)).bind
      (stringAt sections.debugStr.bytes)
  | _ => none

def addressOf (addressSize : Nat) (sections : Sections) : Content → Option Nat
  | .address value => some value
  | .addressIndex index => wordAt addressSize sections.debugAddr.bytes (sections.debugAddrBase + addressSize * index)
  | _ => none

-- The sections of the 32 bit format.
structure Narrow (sections : Sections) : Prop where
  debugStr : sections.debugStr.bytes.length < 2^32
  debugLineStr : sections.debugLineStr.bytes.length < 2^32
  debugStrOffsets : sections.debugStrOffsets.bytes.length < 2^32
  debugAddr : sections.debugAddr.bytes.length < 2^32

-- What a content refers to is there.
def Resolves (addressSize : Nat) (sections : Sections) : Content → Prop
  | .textAt offset => (textOf sections (.textAt offset)).isSome
  | .lineTextAt offset => (textOf sections (.lineTextAt offset)).isSome
  | .textIndex index => (textOf sections (.textIndex index)).isSome
  | .addressIndex index => (addressOf addressSize sections (.addressIndex index)).isSome
  | _ => True

theorem normalize_inside (inside : offset ≤ sect.bytes.length) : normalizeSectionOffset sect offset = .ok offset := by
  rw [normalizeSectionOffset,if_pos inside]
  rfl

theorem stringAt_inside (found : stringAt bytes offset = some text) : offset ≤ bytes.length := by
  unfold stringAt at found
  split at found
  · assumption
  · cases found

theorem string_found {sect : Section} (found : stringAt sect.bytes offset = some text) :
    readSectionString sect offset = .ok text := by
  have inside := stringAt_inside found
  rw [stringAt,if_pos inside] at found
  have start : ¬ (ofSource (sect.bytes.drop offset)).currentOffset < 0 := show ¬ (0 : Int) < 0 by decide
  have ahead : (ofSource (sect.bytes.drop offset)).source.drop (ofSource (sect.bytes.drop offset)).currentOffset.toNat =
      sect.bytes.drop offset := List.drop_zero
  rw [readSectionString,normalize_inside inside,ok_bind,readCstring,if_neg start,ahead,found]
  rfl

theorem text_found {sect : Section} (short : sect.bytes.length < 2^32) (found : stringAt sect.bytes offset = some text) :
    textIn sect offset = .ok (.string text) := by
  have inside := stringAt_inside found
  rw [textIn,normalize_inside inside,ok_bind,Nat.mod_eq_of_lt (by omega),string_found found]
  rfl

theorem wordAt_inside (found : wordAt width bytes offset = some value) : offset + width ≤ bytes.length := by
  unfold wordAt at found
  split at found
  · assumption
  · cases found

-- The reader of an index table stands in front of the word.
theorem entry_found {sect : Section} (short : sect.bytes.length < 2^32) (wide : 0 < width)
    (found : wordAt width sect.bytes (base + width * index) = some value) (message : String) :
    ∃ reader, entryAt sect base index width message = .ok reader ∧
      ∃ next, reader.readLittleEndian width = .ok (some (value,next)) := by
  have inside := wordAt_inside found
  rw [wordAt,if_pos inside] at found
  have few : index ≤ width * index := Nat.le_mul_of_pos_left index wide
  have place : add64 base (mul64 index width) = base + width * index := by
    rw [mul64,Nat.mul_comm,Nat.mod_eq_of_lt (by omega),add64_of_lt (by omega)]
  have length : (sect.bytes.take (base + width * index)).length = base + width * index :=
    List.length_take_of_le (by omega)
  have word : ((sect.bytes.drop (base + width * index)).take width).length = width :=
    List.length_take_of_le (by rw [List.length_drop]; omega)
  have stands : Stands (ofSource sect.bytes) [] (sect.bytes.take (base + width * index) ++
      ((sect.bytes.drop (base + width * index)).take width ++ (sect.bytes.drop (base + width * index)).drop width)) := by
    refine ⟨?_,rfl⟩
    rw [List.take_append_drop,List.take_append_drop]
    rfl
  have skipped := stands.skip
  rw [length] at skipped
  have read := stands.advance.readLittleEndian word
  rw [length] at read
  cases found
  refine ⟨_,?_,_,read⟩
  rw [entryAt,Nat.mod_eq_of_lt (by omega),normalize_inside (by omega),ok_bind,place,
    toS64_of_range (by omega) (by omega),skipped]
  rfl

theorem textIndex_found (narrow : Narrow sections) (found : textOf sections (.textIndex index) = some text) :
    meaning addressSize implicitConst sections (.textIndex index) = .ok (.string text) := by
  obtain ⟨offset,word,string⟩ := Option.bind_eq_some_iff.mp found
  obtain ⟨reader,entry,next,read⟩ := entry_found narrow.debugStrOffsets (by decide) word "dwarf: strx index out of range"
  rw [meaning,resolveStrx,entry,ok_bind,readU32,read,asserted_ok,ok_bind]
  dsimp only
  rw [string_found string]
  rfl

theorem addressIndex_found (narrow : Narrow sections) (usable : addressSize = 4 ∨ addressSize = 8)
    (found : addressOf addressSize sections (.addressIndex index) = some value) :
    meaning addressSize implicitConst sections (.addressIndex index) = .ok (.unsigned value) := by
  obtain ⟨reader,entry,next,read⟩ := entry_found narrow.debugAddr (by omega) found "dwarf: addrx index out of range"
  have width : (if addressSize = 8 then reader.readU64 else reader.readU32) = reader.readLittleEndian addressSize := by
    rcases usable with rfl | rfl
    · rfl
    · rfl
  rw [meaning,resolveAddrx,entry,ok_bind,width,read,asserted_ok,ok_bind]
  rfl

-- What the parser makes of a content that refers to what is there.
def valueOf (addressSize : Nat) (implicitConst : Int) (sections : Sections) : Content → AttributeValue
  | .unsigned value | .address value | .sectionOffset value => .unsigned value
  | .signed value => .signed value
  | .constant => .signed implicitConst
  | .text bytes => .string bytes
  | .textAt offset => .string ((textOf sections (.textAt offset)).getD [])
  | .lineTextAt offset => .string ((textOf sections (.lineTextAt offset)).getD [])
  | .textIndex index => .string ((textOf sections (.textIndex index)).getD [])
  | .addressIndex index => .unsigned ((addressOf addressSize sections (.addressIndex index)).getD 0)
  | .block _ => .block ⟨[],0,0⟩
  | .flag value => .flag value
  | .elsewhere => .none

theorem meaning_resolved (implicitConst : Int) (narrow : Narrow sections) (usable : addressSize = 4 ∨ addressSize = 8)
    (resolves : Resolves addressSize sections content) :
    meaning addressSize implicitConst sections content = .ok (valueOf addressSize implicitConst sections content) := by
  cases content with
  | textAt offset =>
      obtain ⟨text,found⟩ := Option.isSome_iff_exists.mp resolves
      rw [valueOf,found]
      exact text_found narrow.debugStr found
  | lineTextAt offset =>
      obtain ⟨text,found⟩ := Option.isSome_iff_exists.mp resolves
      rw [valueOf,found]
      exact text_found narrow.debugLineStr found
  | textIndex index =>
      obtain ⟨text,found⟩ := Option.isSome_iff_exists.mp resolves
      rw [valueOf,found]
      exact textIndex_found narrow found
  | addressIndex index =>
      obtain ⟨address,found⟩ := Option.isSome_iff_exists.mp resolves
      rw [valueOf,found]
      exact addressIndex_found narrow usable found
  | _ => rfl

end Tables

section Attributes
variable {own : Sections} {context : UnitContext}

-- An attribute of the unit itself stands in its root, and once; the bases it
-- gives are those of `own`.
def Rooted (own : Sections) (line strings addresses : Bool) (tag : Tag) (a : Attribute) : Prop :=
  match a.spec.attributeType with
  | .stmtList => tag = .compileUnit ∧ line = false ∧ ∃ offset, a.content = .unsigned offset
  | .strOffsetsBase => tag = .compileUnit ∧ strings = false ∧ a.content = .unsigned own.debugStrOffsetsBase
  | .addrBase => tag = .compileUnit ∧ addresses = false ∧ a.content = .unsigned own.debugAddrBase
  | _ => True

-- An index comes behind the base it counts from.
def Based (strings addresses : Bool) : Content → Prop
  | .textIndex _ => strings = true
  | .addressIndex _ => addresses = true
  | _ => True

def Orderly (own : Sections) : Bool → Bool → Bool → List (Tag × Attribute) → Prop
  | _, _, _, [] => True
  | line, strings, addresses, (tag,a) :: rest =>
    Rooted own line strings addresses tag a ∧ Based strings addresses a.content ∧
    Orderly own (line || a.spec.attributeType = .stmtList) (strings || a.spec.attributeType = .strOffsetsBase)
      (addresses || a.spec.attributeType = .addrBase) rest

-- What the walk knows of the unit itself.
structure Carries (own : Sections) (line strings addresses : Bool) (unit : UnitState) : Prop where
  contents : contents unit.sections = contents own
  hasLine : unit.hasDebugLineOffset = line
  hasStrings : unit.hasDebugStrOffsetsBase = strings
  hasAddresses : unit.hasDebugAddrBase = addresses
  stringsBase : strings = true → unit.sections.debugStrOffsetsBase = own.debugStrOffsetsBase
  addressesBase : addresses = true → unit.sections.debugAddrBase = own.debugAddrBase

-- The walk has found the same subprograms in both.
structure SameFound (unit unit' : UnitState) : Prop where
  names : unit'.names = unit.names
  pending : unit'.pendingSubprograms = unit.pendingSubprograms

theorem value_known (implicitConst : Int) (carries : Carries own line strings addresses unit)
    (based : Based strings addresses content)
    (narrow : Narrow own) (usable : addressSize = 4 ∨ addressSize = 8) (resolves : Resolves addressSize own content) :
    meaning addressSize implicitConst unit.sections content = .ok (valueOf addressSize implicitConst own content) := by
  have same : meaning addressSize implicitConst unit.sections content = meaning addressSize implicitConst own content := by
    refine meaning_same carries.contents content ?_ ?_
    · rintro index rfl
      exact carries.stringsBase based
    · rintro index rfl
      exact carries.addressesBase based
  rw [same,meaning_resolved implicitConst narrow usable resolves]

theorem unit_recorded (addressSize : Nat) (implicitConst : Int) {unit : UnitState}
    (carries : Carries own line strings addresses unit)
    (rooted : Rooted own line strings addresses tag a) :
    ∃ unit', recordUnit tag a.spec (valueOf addressSize implicitConst own a.content) unit = .ok unit' ∧
      Carries own (line || a.spec.attributeType = .stmtList) (strings || a.spec.attributeType = .strOffsetsBase)
        (addresses || a.spec.attributeType = .addrBase) unit' ∧ SameFound unit unit' := by
  unfold Rooted at rooted
  unfold recordUnit
  cases type : a.spec.attributeType with
  | stmtList =>
      rw [type] at rooted
      obtain ⟨rfl,fresh,offset,gives⟩ := rooted
      have first : unit.hasDebugLineOffset = false := carries.hasLine.trans fresh
      simp only [gives,valueOf,unsignedOf,ok_bind,first,ne_eq,not_true_eq_false,if_false,Bool.false_eq_true]
      refine ⟨_,rfl,⟨carries.contents,?_,?_,?_,?_,?_⟩,⟨rfl,rfl⟩⟩
      · simp
      · simpa using carries.hasStrings
      · simpa using carries.hasAddresses
      · simpa using carries.stringsBase
      · simpa using carries.addressesBase
  | strOffsetsBase =>
      rw [type] at rooted
      obtain ⟨rfl,fresh,gives⟩ := rooted
      have first : unit.hasDebugStrOffsetsBase = false := carries.hasStrings.trans fresh
      simp only [gives,valueOf,unsignedOf,ok_bind,first,ne_eq,not_true_eq_false,if_false,Bool.false_eq_true]
      refine ⟨_,rfl,⟨carries.contents,?_,?_,?_,fun _ => rfl,?_⟩,⟨rfl,rfl⟩⟩
      · simpa using carries.hasLine
      · simp
      · simpa using carries.hasAddresses
      · simpa using carries.addressesBase
  | addrBase =>
      rw [type] at rooted
      obtain ⟨rfl,fresh,gives⟩ := rooted
      have first : unit.hasDebugAddrBase = false := carries.hasAddresses.trans fresh
      simp only [gives,valueOf,unsignedOf,ok_bind,first,ne_eq,not_true_eq_false,if_false,Bool.false_eq_true]
      refine ⟨_,rfl,⟨carries.contents,?_,?_,?_,?_,fun _ => rfl⟩,⟨rfl,rfl⟩⟩
      · simpa using carries.hasLine
      · simpa using carries.hasStrings
      · simp
      · simpa using carries.stringsBase
  | _ => exact ⟨unit,rfl,by simpa using carries,⟨rfl,rfl⟩⟩

-- The number of an address, of a constant or of a reference.
def numberOf : Content → Nat
  | .unsigned value | .address value | .sectionOffset value => value
  | _ => 0

-- The attributes of a subprogram that the parser reads as the format means
-- them.
def Readable (own : Sections) (context : UnitContext) (a : Attribute) : Prop :=
  match a.spec.attributeType with
  | .name => (textOf own a.content).isSome
  | .lowPc => (addressOf context.addressSize own a.content).isSome
  | .highPc => (∃ address, a.content = .address address ∧ a.spec.form = .addr) ∨ ∃ size, a.content = .unsigned size
  | .specification => (∃ offset, a.content = .unsigned offset) ∨
      ∃ offset, a.content = .sectionOffset offset ∧ context.unitStart = 0
  | _ => True

def absorb (own : Sections) (context : UnitContext) (entry : EntryState) (a : Attribute) : EntryState :=
  match a.spec.attributeType with
  | .name => {entry with name := (textOf own a.content).getD [],hasName := true}
  | .lowPc => {entry with lowPc := (addressOf context.addressSize own a.content).getD 0,hasLowPc := true}
  | .highPc => {entry with highPcRaw := numberOf a.content,highPcIsOffset := a.spec.form ≠ .addr,hasHighPc := true}
  | .specification => {entry with specificationOffset := add64 context.unitStart (numberOf a.content)}
  | _ => entry

theorem stringOf_text (known : (textOf own content).isSome) :
    stringOf (valueOf addressSize implicitConst own content) = .ok ((textOf own content).getD []) := by
  cases content with
  | text bytes | textAt offset | lineTextAt offset | textIndex index => rfl
  | _ => cases known

theorem unsignedOf_address (known : (addressOf addressSize own content).isSome) :
    unsignedOf (valueOf addressSize implicitConst own content) = .ok ((addressOf addressSize own content).getD 0) := by
  cases content with
  | address value | addressIndex index => rfl
  | _ => cases known

theorem subprogram_recorded (entry : EntryState) (readable : Readable own context a) :
    recordSubprogram context.unitStart a.spec (valueOf context.addressSize implicitConst own a.content) entry =
      .ok (absorb own context entry a) := by
  unfold Readable at readable
  unfold recordSubprogram absorb
  cases type : a.spec.attributeType with
  | name =>
      rw [type] at readable
      dsimp only
      rw [stringOf_text readable]
      rfl
  | lowPc =>
      rw [type] at readable
      dsimp only
      rw [unsignedOf_address readable]
      rfl
  | highPc =>
      rw [type] at readable
      obtain ⟨address,gives,form⟩ | ⟨size,gives⟩ := readable
      · rw [gives]
        rfl
      · rw [gives]
        rfl
  | specification =>
      rw [type] at readable
      obtain ⟨offset,gives⟩ | ⟨offset,gives,first⟩ := readable
      · rw [gives]
        rfl
      · rw [gives]
        rfl
  | _ => rfl

theorem attributes_absorbed (context : UnitContext) (tag : Tag) (attributes : List Attribute)
    (rest : List (Tag × Attribute)) (entry : EntryState) {unit : UnitState}
    (carries : Carries own line strings addresses unit)
    (orderly : Orderly own line strings addresses (attributes.map (tag,·) ++ rest)) (narrow : Narrow own)
    (usable : context.addressSize = 4 ∨ context.addressSize = 8)
    (resolves : ∀ a ∈ attributes, Resolves context.addressSize own a.content)
    (readable : tag = .subprogram → ∀ a ∈ attributes, Readable own context a) :
    ∃ unit' line' strings' addresses', readContents context tag attributes entry unit =
        .ok (if tag = .subprogram then attributes.foldl (absorb own context) entry else entry,unit') ∧
      Carries own line' strings' addresses' unit' ∧ SameFound unit unit' ∧ Orderly own line' strings' addresses' rest := by
  induction attributes generalizing entry unit line strings addresses with
  | nil =>
      refine ⟨unit,line,strings,addresses,?_,carries,⟨rfl,rfl⟩,orderly⟩
      rw [List.foldl_nil,ite_self]
      rfl
  | cons a attributes ih =>
      obtain ⟨rooted,based,orderly⟩ := orderly
      have value := value_known a.spec.implicitConst carries based narrow usable
        (resolves a (List.mem_cons_self ..))
      obtain ⟨unit'',recorded,carries'',same⟩ := unit_recorded context.addressSize a.spec.implicitConst
        carries rooted
      have entered : (if tag = .subprogram then recordSubprogram context.unitStart a.spec
          (valueOf context.addressSize a.spec.implicitConst own a.content) entry else .ok entry) =
          .ok (if tag = .subprogram then absorb own context entry a else entry) := by
        split
        · rename_i sub
          exact subprogram_recorded entry (readable sub a (List.mem_cons_self ..))
        · rfl
      obtain ⟨unit',line',strings',addresses',taken,carries',same',orderly'⟩ := ih
        (if tag = .subprogram then absorb own context entry a else entry) carries'' orderly
        (fun b here => resolves b (List.mem_cons_of_mem _ here))
        (fun sub b here => readable sub b (List.mem_cons_of_mem _ here))
      refine ⟨unit',line',strings',addresses',?_,carries',
        ⟨same'.names.trans same.names,same'.pending.trans same.pending⟩,orderly'⟩
      rw [readContents,value,ok_bind,recordAttribute,entered,ok_bind,recorded,ok_bind]
      dsimp only
      show (readContents context tag attributes _ unit'') = _
      rw [taken,List.foldl_cons]
      split <;> rfl

end Attributes

section Entries
variable {own : Sections} {context : UnitContext}

def attributeFor (e : Entry) (type : AttributeType) : Option Attribute :=
  e.attributes.find? (fun a => a.spec.attributeType = type)

-- The attributes of an entry are of different types.
def Distinct (e : Entry) : Prop := (e.attributes.map (·.spec.attributeType)).Nodup

def ownName (own : Sections) (e : Entry) : Option (List UInt8) := (attributeFor e .name).bind fun a => textOf own a.content

def lowPc (own : Sections) (addressSize : Nat) (e : Entry) : Option Nat :=
  (attributeFor e .lowPc).bind fun a => addressOf addressSize own a.content

-- A number of class constant, of any form.
def constantOf (a : Attribute) : Option Int :=
  match a.content with
  | .unsigned value => some value
  | .signed value => some value
  | .constant => some a.spec.implicitConst
  | .block bytes => if bytes.length = 16 then some (littleEndian bytes) else none
  | _ => none

-- An address is the end itself, a constant the distance to it.
def endOf (own : Sections) (addressSize low : Nat) (a : Attribute) : Option Nat :=
  match addressOf addressSize own a.content with
  | some address => some address
  | none => (constantOf a).map fun distance => toU64 (low + distance)

def highPc (own : Sections) (addressSize low : Nat) (e : Entry) : Option Nat :=
  (attributeFor e .highPc).bind (endOf own addressSize low)

-- Where the entry lies that the specification refers to.
def targetOf (start : Nat) (a : Attribute) : Option Nat :=
  match a.content with
  | .unsigned offset => some (start + offset)
  | .sectionOffset offset => some offset
  | _ => none

def target (start : Nat) (e : Entry) : Option Nat := (attributeFor e .specification).bind (targetOf start)

-- The entries of a unit with their offsets in the section.
def placed (offset : Nat) : List Item → List (Nat × Entry)
  | [] => []
  | .entry e :: items => (offset,e) :: placed (offset + e.bytes.length) items
  | .null bytes :: items => placed (offset + bytes.length) items

def entryPlaced (entries : List (Nat × Entry)) (offset : Nat) : Option Entry :=
  (entries.find? (fun pair => pair.1 = offset)).map (·.2)

-- A name of its own, or that of the entry it specifies.
def nameOf (own : Sections) (start : Nat) (entries : List (Nat × Entry)) (e : Entry) : Option (List UInt8) :=
  match ownName own e with
  | some (byte :: text) => some (byte :: text)
  | _ => do
      let offset ← target start e
      let specified ← entryPlaced entries offset
      ownName own specified

def subprogramOf (own : Sections) (addressSize start : Nat) (entries : List (Nat × Entry)) (e : Entry) :
    Option SubprogramInfo :=
  if e.tag = .subprogram then do
    let low ← lowPc own addressSize e
    let high ← highPc own addressSize low e
    let name ← nameOf own start entries e
    if name = [] then none else some ⟨name,low,high⟩
  else none

-- The subprograms that the entries of a unit describe, in their order.
def described (own : Sections) (addressSize start : Nat) (entries : List (Nat × Entry)) : List SubprogramInfo :=
  entries.filterMap fun (_,e) => subprogramOf own addressSize start entries e

-- What the walk keeps of one entry.
def recorded (own : Sections) (context : UnitContext) (e : Entry) : EntryState :=
  e.attributes.foldl (absorb own context) .init

-- A field that one type of attribute sets and the others leave alone.
theorem absorbed_field (own : Sections) (context : UnitContext) (field : EntryState → β) (type : AttributeType)
    (value : Attribute → β)
    (sets : ∀ entry a, a.spec.attributeType = type → field (absorb own context entry a) = value a)
    (keeps : ∀ entry a, a.spec.attributeType ≠ type → field (absorb own context entry a) = field entry)
    (attributes : List Attribute) (distinct : (attributes.map (·.spec.attributeType)).Nodup) (entry : EntryState) :
    field (attributes.foldl (absorb own context) entry) =
      ((attributes.find? (fun a => a.spec.attributeType = type)).map value).getD (field entry) := by
  induction attributes generalizing entry with
  | nil => rfl
  | cons a attributes ih =>
      rw [List.map_cons,List.nodup_cons] at distinct
      obtain ⟨fresh,distinct⟩ := distinct
      rw [List.foldl_cons,ih distinct,List.find?_cons]
      by_cases same : a.spec.attributeType = type
      · have none : attributes.find? (fun a => a.spec.attributeType = type) = .none := by
          rw [List.find?_eq_none]
          intro b here again
          exact fresh (List.mem_map.mpr ⟨b,here,(of_decide_eq_true again).trans same.symm⟩)
        rw [none,decide_eq_true same,sets entry a same]
        rfl
      · rw [decide_eq_false same,keeps entry a same]

theorem absorb_keeps (entry : EntryState) (a : Attribute) :
    (a.spec.attributeType ≠ .name → (absorb own context entry a).name = entry.name ∧
      (absorb own context entry a).hasName = entry.hasName) ∧
    (a.spec.attributeType ≠ .lowPc → (absorb own context entry a).lowPc = entry.lowPc ∧
      (absorb own context entry a).hasLowPc = entry.hasLowPc) ∧
    (a.spec.attributeType ≠ .highPc → (absorb own context entry a).highPcRaw = entry.highPcRaw ∧
      (absorb own context entry a).highPcIsOffset = entry.highPcIsOffset ∧
      (absorb own context entry a).hasHighPc = entry.hasHighPc) ∧
    (a.spec.attributeType ≠ .specification →
      (absorb own context entry a).specificationOffset = entry.specificationOffset) := by
  unfold absorb
  cases type : a.spec.attributeType with
  | _ => simp

-- An entry is kept by what its attributes of each type give.
theorem recorded_known (own : Sections) (context : UnitContext) (distinct : Distinct e) : recorded own context e =
    { hasName := (attributeFor e .name).isSome
      hasLowPc := (attributeFor e .lowPc).isSome
      hasHighPc := (attributeFor e .highPc).isSome
      name := (ownName own e).getD []
      lowPc := (lowPc own context.addressSize e).getD 0
      highPcRaw := ((attributeFor e .highPc).map fun a => numberOf a.content).getD 0
      specificationOffset := ((attributeFor e .specification).map fun a =>
        add64 context.unitStart (numberOf a.content)).getD 0
      highPcIsOffset := ((attributeFor e .highPc).map fun a => decide (a.spec.form ≠ .addr)).getD false } := by
  have field := fun {β : Type} (field : EntryState → β) type value sets keeps =>
    absorbed_field own context field type value sets keeps e.attributes distinct .init
  have hasName := field (·.hasName) .name (fun _ => true) (by intro entry a same; simp [absorb,same])
    (fun entry a other => ((absorb_keeps entry a).1 other).2)
  have hasLowPc := field (·.hasLowPc) .lowPc (fun _ => true) (by intro entry a same; simp [absorb,same])
    (fun entry a other => ((absorb_keeps entry a).2.1 other).2)
  have hasHighPc := field (·.hasHighPc) .highPc (fun _ => true) (by intro entry a same; simp [absorb,same])
    (fun entry a other => ((absorb_keeps entry a).2.2.1 other).2.2)
  have name := field (·.name) .name (fun a => (textOf own a.content).getD []) (by intro entry a same; simp [absorb,same])
    (fun entry a other => ((absorb_keeps entry a).1 other).1)
  have low := field (·.lowPc) .lowPc (fun a => (addressOf context.addressSize own a.content).getD 0)
    (by intro entry a same; simp [absorb,same]) (fun entry a other => ((absorb_keeps entry a).2.1 other).1)
  have raw := field (·.highPcRaw) .highPc (fun a => numberOf a.content) (by intro entry a same; simp [absorb,same])
    (fun entry a other => ((absorb_keeps entry a).2.2.1 other).1)
  have isOffset := field (·.highPcIsOffset) .highPc (fun a => decide (a.spec.form ≠ .addr))
    (by intro entry a same; simp [absorb,same]) (fun entry a other => ((absorb_keeps entry a).2.2.1 other).2.1)
  have specification := field (·.specificationOffset) .specification
    (fun a => add64 context.unitStart (numberOf a.content)) (by intro entry a same; simp [absorb,same])
    (fun entry a other => (absorb_keeps entry a).2.2.2 other)
  have given : ∀ found : Option Attribute, (found.map fun _ => true).getD false = found.isSome := by
    intro found
    cases found <;> rfl
  have named : ∀ found : Option Attribute, (found.map fun a => (textOf own a.content).getD []).getD [] =
      (found.bind fun a => textOf own a.content).getD [] := by
    intro found
    cases found <;> rfl
  have addressed : ∀ found : Option Attribute,
      (found.map fun a => (addressOf context.addressSize own a.content).getD 0).getD 0 =
      (found.bind fun a => addressOf context.addressSize own a.content).getD 0 := by
    intro found
    cases found <;> rfl
  cases whole : recorded own context e with
  | mk _ _ _ _ _ _ _ _ =>
      unfold recorded at whole
      rw [whole] at hasName hasLowPc hasHighPc name low raw isOffset specification
      cases hasName
      cases hasLowPc
      cases hasHighPc
      cases name
      cases low
      cases raw
      cases isOffset
      cases specification
      congr 1
      · exact given _
      · exact given _
      · exact given _
      · exact named _
      · exact addressed _

end Entries

section Walk
variable {own : Sections} {context : UnitContext}

-- What a turn over an entry adds.
def namedBy (own : Sections) (context : UnitContext) (pair : Nat × Entry) : Option (Nat × List UInt8) :=
  if pair.2.tag = .subprogram ∧ (recorded own context pair.2).hasName then
    some (pair.1,(recorded own context pair.2).name)
  else none

def pendingBy (own : Sections) (context : UnitContext) (pair : Nat × Entry) : Option PendingSubprogram :=
  let entry := recorded own context pair.2
  if pair.2.tag = .subprogram ∧ entry.hasLowPc ∧ entry.hasHighPc then
    some ⟨entry.specificationOffset,entry.name,entry.lowPc,entry.highPcRaw,entry.hasName,entry.highPcIsOffset⟩
  else none

def tagged (items : List Item) : List (Tag × Attribute) := items.flatMap fun
  | .entry e => e.attributes.map (e.tag,·)
  | .null _ => []

theorem recordEntry_carries (carries : Carries own line strings addresses unit) (declaration : Abbreviation)
    (offset : Nat) (entry : EntryState) : Carries own line strings addresses (recordEntry declaration offset entry unit) := by
  have sections := recordEntry_sections declaration offset entry unit
  have bases : (recordEntry declaration offset entry unit).hasDebugStrOffsetsBase = unit.hasDebugStrOffsetsBase ∧
      (recordEntry declaration offset entry unit).hasDebugAddrBase = unit.hasDebugAddrBase := recordEntry_bases
  have hasLine : (recordEntry declaration offset entry unit).hasDebugLineOffset = unit.hasDebugLineOffset := by
    unfold recordEntry
    dsimp only
    split_ifs <;> rfl
  refine ⟨?_,hasLine.trans carries.hasLine,bases.1.trans carries.hasStrings,bases.2.trans carries.hasAddresses,?_,?_⟩
  · rw [sections]
    exact carries.contents
  · rw [sections]
    exact carries.stringsBase
  · rw [sections]
    exact carries.addressesBase

theorem recordEntry_found (own : Sections) (context : UnitContext) (e : Entry) (offset : Nat) (unit : UnitState) :
    (recordEntry e.declaration offset (if e.tag = .subprogram then recorded own context e else .init) unit).names =
      (namedBy own context (offset,e)).toList ++ unit.names ∧
    (recordEntry e.declaration offset (if e.tag = .subprogram then recorded own context e else .init)
      unit).pendingSubprograms = unit.pendingSubprograms ++ (pendingBy own context (offset,e)).toList := by
  have tag : e.declaration.tag = e.tag := rfl
  unfold recordEntry namedBy pendingBy
  rw [tag]
  by_cases sub : e.tag = .subprogram
  · simp only [sub,if_true,true_and]
    constructor
    · split_ifs <;> rfl
    · split_ifs <;> simp
  · simp only [sub,if_false,false_and,Option.toList_none,List.nil_append,List.append_nil]
    constructor
    · split_ifs <;> rfl
    · split_ifs <;> rfl

theorem items_walked (context : UnitContext) (items : List Item) (offset : Nat) (unit : UnitState)
    (carries : Carries own line strings addresses unit) (orderly : Orderly own line strings addresses (tagged items))
    (narrow : Narrow own) (usable : context.addressSize = 4 ∨ context.addressSize = 8)
    (resolves : ∀ a ∈ attributesOf items, Resolves context.addressSize own a.content)
    (readable : ∀ pair ∈ placed offset items, pair.2.tag = .subprogram → ∀ a ∈ pair.2.attributes, Readable own context a) :
    ∃ unit', walkItems context offset items unit = .ok unit' ∧
      unit'.names = ((placed offset items).filterMap (namedBy own context)).reverse ++ unit.names ∧
      unit'.pendingSubprograms = unit.pendingSubprograms ++ (placed offset items).filterMap (pendingBy own context) := by
  induction items generalizing offset unit line strings addresses with
  | nil => exact ⟨unit,rfl,rfl,(List.append_nil _).symm⟩
  | cons item items ih =>
      have later : ∀ a ∈ attributesOf items, Resolves context.addressSize own a.content := by
        intro a here
        refine resolves a ?_
        rw [attributesOf,List.flatMap_cons]
        exact List.mem_append_right _ here
      cases item with
      | null closing =>
          obtain ⟨unit',walked,names,pending⟩ := ih (offset + closing.length)
            {unit with scopeStack := unit.scopeStack.tail}
            ⟨carries.contents,carries.hasLine,carries.hasStrings,carries.hasAddresses,carries.stringsBase,
              carries.addressesBase⟩ orderly later readable
          exact ⟨unit',walked,names,pending⟩
      | entry e =>
          have here : (offset,e) ∈ placed offset (.entry e :: items) := List.mem_cons_self ..
          obtain ⟨unit'',line',strings',addresses',taken,carries'',same,orderly'⟩ := attributes_absorbed
            context e.tag e.attributes (tagged items) .init carries orderly narrow usable
            (fun a own => resolves a (List.mem_append_left _ own)) (fun sub => readable _ here sub)
          have found := recordEntry_found own context e offset unit''
          obtain ⟨unit',walked,names,pending⟩ := ih (offset + e.bytes.length) _
            (recordEntry_carries carries'' e.declaration offset
              (if e.tag = .subprogram then recorded own context e else .init)) orderly' later
            (fun pair among => readable pair (List.mem_cons_of_mem _ among))
          refine ⟨unit',?_,?_,?_⟩
          · rw [walkItems,taken,ok_bind]
            exact walked
          · rw [names,found.1,same.names,placed,List.filterMap_cons]
            cases namedBy own context (offset,e) with
            | none => rfl
            | some named =>
                rw [List.reverse_cons,List.append_assoc]
                rfl
          · rw [pending,found.2,same.pending,placed,List.filterMap_cons,List.append_assoc]
            cases pendingBy own context (offset,e) with
            | none => rfl
            | some sub => rfl

-- Entries lie at different offsets, from the first on.
theorem placed_after (items : List Item) (offset : Nat) : ∀ pair ∈ placed offset items, offset ≤ pair.1 := by
  induction items generalizing offset with
  | nil => exact fun pair here => nomatch here
  | cons item items ih =>
      intro pair here
      cases item with
      | entry e =>
          rcases List.mem_cons.mp here with rfl | here
          · exact Nat.le_refl _
          · have later := ih _ pair here
            omega
      | null closing =>
          have later := ih _ pair here
          omega

theorem placed_inside (items : List Item) (offset : Nat) :
    ∀ pair ∈ placed offset items, pair.1 ≤ offset + (bytesOfItems items).length := by
  induction items generalizing offset with
  | nil => exact fun pair here => nomatch here
  | cons item items ih =>
      intro pair here
      rw [bytesOfItems,List.flatMap_cons,List.length_append]
      have rest := ih (offset + item.bytes.length) pair
      rw [bytesOfItems] at rest
      cases item with
      | entry e =>
          rcases List.mem_cons.mp here with rfl | here
          · exact Nat.le_add_right ..
          · have later := rest here
            omega
      | null closing =>
          have later := rest here
          omega

theorem placed_distinct (items : List Item) (offset : Nat)
    (encoded : ∀ item ∈ items, Item.Encoded addressSize abbreviations item) :
    ((placed offset items).map (·.1)).Nodup := by
  induction items generalizing offset with
  | nil => exact List.nodup_nil
  | cons item items ih =>
      have positive := item_positive (encoded item (List.mem_cons_self ..))
      have rest := fun offset => ih offset fun other here => encoded other (List.mem_cons_of_mem _ here)
      cases item with
      | null closing => exact rest _
      | entry e =>
          rw [placed,List.map_cons,List.nodup_cons]
          refine ⟨?_,rest _⟩
          intro again
          obtain ⟨pair,here,same⟩ := List.mem_map.mp again
          have later := placed_after items _ pair here
          rw [Item.bytes] at positive
          omega

theorem entryPlaced_of_mem {entries : List (Nat × Entry)} (distinct : (entries.map (·.1)).Nodup)
    (here : (offset,e) ∈ entries) : entryPlaced entries offset = some e := Table.find_of_unique distinct here

theorem namedBy_key (named : namedBy own context pair = some (key,name)) : key = pair.1 := by
  unfold namedBy at named
  split at named
  · cases named
    rfl
  · cases named

theorem names_distinct {entries : List (Nat × Entry)} (distinct : (entries.map (·.1)).Nodup) :
    ((entries.filterMap (namedBy own context)).map (·.1)).Nodup := by
  refine distinct.sublist ?_
  clear distinct
  induction entries with
  | nil => exact List.Sublist.refl _
  | cons pair entries ih =>
      rw [List.filterMap_cons,List.map_cons]
      cases named : namedBy own context pair with
      | none => exact ih.cons _
      | some found =>
          obtain ⟨key,name⟩ := found
          rw [List.map_cons,namedBy_key named]
          exact ih.cons_cons _

-- The table of names holds the names of the entries at their offsets.
theorem names_find {entries : List (Nat × Entry)} (distinct : (entries.map (·.1)).Nodup) (here : (offset,e) ∈ entries) :
    Table.find (entries.filterMap (namedBy own context)).reverse offset =
      (namedBy own context (offset,e)).map (·.2) := by
  cases named : namedBy own context (offset,e) with
  | none =>
      refine find_outside _ ?_
      rintro ⟨key,name⟩ among rfl
      obtain ⟨⟨key',e'⟩,member,named'⟩ := List.mem_filterMap.mp (List.mem_reverse.mp among)
      obtain rfl := namedBy_key named'
      have one := entryPlaced_of_mem distinct member
      rw [entryPlaced_of_mem distinct here] at one
      cases one
      rw [named] at named'
      cases named'
  | some found =>
      obtain ⟨key,name⟩ := found
      obtain rfl := namedBy_key named
      refine Table.find_of_unique ?_ (List.mem_reverse.mpr (List.mem_filterMap.mpr ⟨_,here,named⟩))
      rw [List.map_reverse,List.nodup_reverse]
      exact names_distinct distinct

-- The class of an attribute of a subprogram is one that the format allows.
def Allowed (a : Attribute) : Prop :=
  match a.spec.attributeType, a.content with
  | .name, .text _ | .name, .textAt _ | .name, .lineTextAt _ | .name, .textIndex _ | .name, .elsewhere => True
  | .lowPc, .address _ | .lowPc, .addressIndex _ => True
  | .highPc, .address _ | .highPc, .addressIndex _ => True
  | .highPc, _ => (constantOf a).isSome
  | .specification, .unsigned _ | .specification, .sectionOffset _ | .specification, .elsewhere => True
  | .name, _ | .lowPc, _ | .specification, _ => False
  | _, _ => True

-- What the format promises of the entries of a unit besides their encoding.
structure Proper (own : Sections) (context : UnitContext) (items : List Item) (entries : List (Nat × Entry)) : Prop where
  narrow : Narrow own
  distinct : ∀ pair ∈ entries, Distinct pair.2
  resolves : ∀ a ∈ attributesOf items, Resolves context.addressSize own a.content
  allowed : ∀ pair ∈ entries, pair.2.tag = .subprogram → ∀ a ∈ pair.2.attributes, Allowed a
  targets : ∀ pair ∈ entries, pair.2.tag = .subprogram → ∀ offset, target context.unitStart pair.2 = some offset →
    ∃ e, (offset,e) ∈ entries ∧ e.tag = .subprogram

-- What the walk needs of the unit and of the subprograms in it.
structure Plain (own : Sections) (context : UnitContext) (items : List Item) (entries : List (Nat × Entry)) : Prop where
  orderly : Orderly own false false false (tagged items)
  readable : ∀ pair ∈ entries, pair.2.tag = .subprogram → ∀ a ∈ pair.2.attributes, Readable own context a
  named : ∀ pair ∈ entries, pair.2.tag = .subprogram → ownName own pair.2 = some [] →
    attributeFor pair.2 .specification = none

theorem attributeFor_some (found : attributeFor e type = some a) : a ∈ e.attributes ∧ a.spec.attributeType = type :=
  ⟨List.mem_of_find?_eq_some found,by simpa using List.find?_some found⟩

-- An attribute that is there gives what it should.
theorem ownName_isSome (readable : ∀ a ∈ e.attributes, Readable own context a) :
    (ownName own e).isSome = (attributeFor e .name).isSome := by
  cases found : attributeFor e .name with
  | none => rw [ownName,found]; rfl
  | some a =>
      obtain ⟨among,type⟩ := attributeFor_some found
      have known := readable a among
      rw [Readable,type] at known
      rw [ownName,found]
      exact known

theorem lowPc_isSome (readable : ∀ a ∈ e.attributes, Readable own context a) :
    (lowPc own context.addressSize e).isSome = (attributeFor e .lowPc).isSome := by
  cases found : attributeFor e .lowPc with
  | none => rw [lowPc,found]; rfl
  | some a =>
      obtain ⟨among,type⟩ := attributeFor_some found
      have known := readable a among
      rw [Readable,type] at known
      rw [lowPc,found]
      exact known

theorem endOf_known (readable : Readable own context a) (type : a.spec.attributeType = .highPc)
    (constant : ∀ value, a.content = .unsigned value → a.spec.form ≠ .addr) (low : Nat) :
    endOf own context.addressSize low a =
      some (if a.spec.form ≠ .addr then add64 low (numberOf a.content) else numberOf a.content) := by
  rw [Readable,type] at readable
  obtain ⟨address,gives,form⟩ | ⟨size,gives⟩ := readable
  · rw [endOf,gives,if_neg (not_not_intro form)]
    rfl
  · rw [if_pos (constant size gives),endOf,constantOf,gives]
    show some (toU64 (low + size)) = some (add64 low size)
    rw [toU64,add64]
    congr 1

-- The name that the walk finds in the end is empty or the right one.
theorem name_found {entries : List (Nat × Entry)} (distinct : (entries.map (·.1)).Nodup)
    (small : ∀ pair ∈ entries, 0 < pair.1 ∧ pair.1 < 2^64) (proper : Proper own context items entries)
    (plain : Plain own context items entries) (here : (offset,e) ∈ entries) (sub : e.tag = .subprogram) :
    (if (recorded own context e).hasName = false ∧ (recorded own context e).specificationOffset ≠ 0 then
        Table.find (entries.filterMap (namedBy own context)).reverse (recorded own context e).specificationOffset
      else some (recorded own context e).name).filter (· ≠ []) =
    (nameOf own context.unitStart entries e).filter (· ≠ []) := by
  have known := recorded_known own context (proper.distinct _ here)
  have readable := plain.readable _ here sub
  have given := ownName_isSome readable
  rw [known]
  dsimp only
  rw [← given]
  cases name : ownName own e with
  | some text =>
      cases text with
      | cons byte text =>
          rw [nameOf,name]
          rfl
      | nil =>
          have alone := plain.named _ here sub name
          rw [nameOf,name,target,alone]
          rfl
  | none =>
      cases found : attributeFor e .specification with
      | none =>
          rw [nameOf,name,target,found]
          rfl
      | some a =>
          obtain ⟨among,type⟩ := attributeFor_some found
          have reference := readable a among
          rw [Readable,type] at reference
          obtain ⟨offset',refers,sum⟩ : ∃ offset', target context.unitStart e = some offset' ∧
              add64 context.unitStart (numberOf a.content) = offset' % 2^64 := by
            obtain ⟨value,gives⟩ | ⟨value,gives,first⟩ := reference
            · refine ⟨context.unitStart + value,?_,?_⟩
              · rw [target,found]
                simp only [Option.bind_some,targetOf,gives]
              · rw [gives]
                rfl
            · refine ⟨value,?_,?_⟩
              · rw [target,found]
                simp only [Option.bind_some,targetOf,gives]
              · rw [gives,first,add64,Nat.zero_add]
                rfl
          obtain ⟨e',here',sub'⟩ := proper.targets _ here sub offset' refers
          obtain ⟨positive,bound⟩ := small _ here'
          rw [Nat.mod_eq_of_lt bound] at sum
          have given' := ownName_isSome (plain.readable _ here' sub')
          have known' := recorded_known own context (proper.distinct _ here')
          simp only [Option.map_some,Option.getD_some,sum,Option.isSome_none]
          rw [if_pos ⟨trivial,by omega⟩,names_find distinct here',nameOf,name,refers]
          dsimp only [Option.bind_eq_bind,Option.bind_some]
          rw [entryPlaced_of_mem distinct here',Option.bind_some,namedBy,known']
          dsimp only
          rw [← given']
          cases ownName own e' with
          | none => simp
          | some text => simp [sub']

theorem subprogramInfo_filter (names : Table (List UInt8)) (pending : PendingSubprogram) :
    subprogramInfo names pending =
      ((if pending.hasName = false ∧ pending.specificationOffset ≠ 0 then names.find pending.specificationOffset
        else some pending.name).filter (· ≠ [])).map fun name =>
          ⟨name,pending.lowPc,if pending.highPcIsOffset then add64 pending.lowPc pending.highPc else pending.highPc⟩ := by
  unfold subprogramInfo
  dsimp only
  generalize (if pending.hasName = false ∧ pending.specificationOffset ≠ 0 then
    names.find pending.specificationOffset else some pending.name) = name
  cases name with
  | none => rfl
  | some text =>
      cases text with
      | nil => rfl
      | cons byte text => rfl

theorem bind_nonempty (name : Option (List UInt8)) (info : List UInt8 → SubprogramInfo) :
    (name.bind fun text => if text = [] then none else some (info text)) = (name.filter (· ≠ [])).map info := by
  cases name with
  | none => rfl
  | some text =>
      cases text with
      | nil => rfl
      | cons byte text => rfl

theorem subprogram_found {entries : List (Nat × Entry)} (distinct : (entries.map (·.1)).Nodup)
    (small : ∀ pair ∈ entries, 0 < pair.1 ∧ pair.1 < 2^64) (proper : Proper own context items entries)
    (plain : Plain own context items entries) (here : pair ∈ entries)
    (constant : ∀ a ∈ pair.2.attributes, ∀ value, a.content = .unsigned value → a.spec.form ≠ .addr) :
    (pendingBy own context pair).bind (subprogramInfo (entries.filterMap (namedBy own context)).reverse) =
      subprogramOf own context.addressSize context.unitStart entries pair.2 := by
  obtain ⟨offset,e⟩ := pair
  by_cases sub : e.tag = .subprogram
  · have readable := plain.readable _ here sub
    have name := name_found distinct small proper plain here sub
    have known := recorded_known own context (proper.distinct _ here)
    have low := lowPc_isSome readable
    rw [pendingBy,subprogramOf,if_pos sub]
    rw [known] at name ⊢
    dsimp only at name ⊢
    rw [← low]
    cases lowest : lowPc own context.addressSize e with
    | none => simp
    | some low =>
        cases found : attributeFor e .highPc with
        | none => simp [highPc,found]
        | some a =>
            obtain ⟨among,type⟩ := attributeFor_some found
            have ending := endOf_known (readable a among) type (constant a among) low
            simp only [sub,Option.isSome_some,and_self,if_true,Option.bind_some,Option.bind_eq_bind,highPc,found,ending,
              Option.map_some,Option.getD_some]
            rw [subprogramInfo_filter]
            dsimp only
            rw [name,bind_nonempty]
            simp only [decide_eq_true_eq]
  · rw [pendingBy,subprogramOf,if_neg sub]
    simp [sub]

-- A number that is no address has no form of an address.
theorem unsigned_form (encoded : Encoded addressSize form content bytes) (number : content = .unsigned value) :
    form ≠ .addr := by
  rintro rfl
  cases encoded with
  | fixed kind length =>
      cases kind
      cases number
  | number kind unsigned => cases kind
  | sized kind length same => cases kind
  | block kind unsigned short => rcases kind with wrong | wrong <;> cases wrong

theorem placed_item {items : List Item} (here : (offset,e) ∈ placed start items) : .entry e ∈ items := by
  induction items generalizing start with
  | nil => cases here
  | cons item items ih =>
      cases item with
      | entry e' =>
          rcases List.mem_cons.mp here with same | here
          · cases same
            exact List.mem_cons_self ..
          · exact List.mem_cons_of_mem _ (ih here)
      | null closing => exact List.mem_cons_of_mem _ (ih here)

-- What a walk over the items leaves, as the walk over their bytes gives it.
theorem infos_described {items : List Item} (start : Nat) {unit : UnitState} (positive : 0 < start)
    (short : start + (bytesOfItems items).length < 2^64)
    (encoded : ∀ item ∈ items, Item.Encoded context.addressSize context.abbreviations item)
    (proper : Proper own context items (placed start items)) (plain : Plain own context items (placed start items))
    (names : unit.names = ((placed start items).filterMap (namedBy own context)).reverse)
    (pending : unit.pendingSubprograms = (placed start items).filterMap (pendingBy own context)) :
    unit.pendingSubprograms.filterMap (subprogramInfo unit.names) =
      described own context.addressSize context.unitStart (placed start items) := by
  rw [names,pending,List.filterMap_filterMap,described]
  refine List.filterMap_congr ?_
  intro pair here
  obtain ⟨offset,e⟩ := pair
  refine subprogram_found (placed_distinct items start encoded) ?_ proper plain here ?_
  · intro pair here
    have after := placed_after items start pair here
    have inside := placed_inside items start pair here
    omega
  · intro a among value gives
    have whole := encoded _ (placed_item here)
    exact unsigned_form (whole.attributes a among) gives

end Walk

section Units
variable {own : Sections}

theorem walked_described {u : CompilationUnit} {state : ParseState} (wellFormed : u.WellFormed sections)
    (same : contents state.sections = contents own) (start : Nat) (short : start + u.bytes.length < 2^63)
    (proper : Proper own (u.context start) u.items (placed (start + 12) u.items))
    (plain : Plain own (u.context start) u.items (placed (start + 12) u.items)) :
    ∃ unit, walkItems (u.context start) (start + 12) u.items (.init state.sections) = .ok unit ∧
      unit.pendingSubprograms.filterMap (subprogramInfo unit.names) =
        described own u.addressSize.toNat start (placed (start + 12) u.items) := by
  have length := u.bytes_length
  rw [CompilationUnit.length] at length
  have carries : Carries own false false false (.init state.sections) :=
    ⟨same,rfl,rfl,rfl,(fun wrong => absurd wrong Bool.false_ne_true),(fun wrong => absurd wrong Bool.false_ne_true)⟩
  obtain ⟨unit,walked,names,pending⟩ := items_walked (u.context start) u.items (start + 12) _ carries plain.orderly
    proper.narrow wellFormed.addressSize proper.resolves plain.readable
  refine ⟨unit,walked,?_⟩
  rw [UnitState.init,List.append_nil] at names
  exact infos_described (start + 12) (by omega) (by omega) wellFormed.encoded proper plain names pending

end Units

section Examples

def indexedDeclarations : List ShortDeclaration := [
  -- a unit with its base of addresses
  ⟨1,0x11,1,[(0x73,0x17)]⟩,
  -- the end of a subprogram as a distance and as an address
  ⟨2,0x2e,0,[(0x03,0x08),(0x11,0x1b),(0x12,0x0b)]⟩,
  ⟨3,0x2e,0,[(0x03,0x08),(0x11,0x1b),(0x12,0x1b)]⟩,
  -- a declaration and its definition
  ⟨4,0x2e,0,[(0x03,0x08),(0x3c,0x19)]⟩,
  ⟨5,0x2e,0,[(0x47,0x13),(0x11,0x01),(0x12,0x01)]⟩]

def indexedSections : Sections where
  debugInfo := ⟨0,[]⟩
  debugAbbrev := ⟨0,indexedDeclarations.flatMap (·.bytes) ++ [0]⟩
  debugLine := ⟨0,[]⟩
  debugStr := ⟨0,[]⟩
  debugLineStr := ⟨0,[]⟩
  debugStrOffsets := ⟨0,[]⟩
  debugAddr := ⟨0,[20,0,0,0,5,0,8,0,0,0x10,0,0,0,0,0,0,0x20,0x10,0,0,0,0,0,0]⟩
  debugStrOffsetsBase := 0
  debugAddrBase := 0

def indexedOwn : Sections := {indexedSections with debugAddrBase := 8}

def nameAttribute (byte : UInt8) : Attribute := ⟨⟨.name,.string,0⟩,.text [byte],[byte,0]⟩
def indexAttribute (type : AttributeType) (index : UInt8) : Attribute :=
  ⟨⟨type,.addrx,0⟩,.addressIndex index.toNat,[index]⟩

def shortEntry (code : UInt8) (tag : Tag) (hasChildren : Bool) (attributes : List Attribute) : Entry :=
  ⟨code.toNat,[code],tag,hasChildren,attributes⟩

def indexedRoot : Entry := shortEntry 1 .compileUnit true [fixedAttribute 0x73 0x17 .unsigned [8,0,0,0]]
def distanceEntry : Entry := shortEntry 2 .subprogram false
  [nameAttribute 0x67,indexAttribute .lowPc 0,fixedAttribute 0x12 0x0b .unsigned [0x20]]
def addressEntry : Entry := shortEntry 3 .subprogram false
  [nameAttribute 0x67,indexAttribute .lowPc 0,indexAttribute .highPc 1]
def declarationEntry : Entry := shortEntry 4 .subprogram false
  [nameAttribute 0x66,⟨⟨.other 0x3c,.flagPresent,0⟩,.flag 1,[]⟩]
def definitionEntry : Entry := shortEntry 5 .subprogram false
  [fixedAttribute 0x47 0x13 .unsigned [38,0,0,0],fixedAttribute 0x11 0x01 .address [0,0x20,0,0,0,0,0,0],
    fixedAttribute 0x12 0x01 .address [0x10,0x20,0,0,0,0,0,0]]

def indexedUnit (children : List Entry) : CompilationUnit where
  type := 1
  addressSize := 8
  abbreviationOffset := 0
  declarations := indexedDeclarations.map (·.declaration)
  items := .entry indexedRoot :: (children.map .entry ++ [.null [0]])

-- A definition in front of its declaration, and a subprogram with its own name.
def forwardUnit : CompilationUnit := indexedUnit [definitionEntry,declarationEntry,distanceEntry]
def addressUnit : CompilationUnit := indexedUnit [addressEntry]

theorem nameAttribute_encoded (byte : UInt8) (text : byte ≠ 0) :
    Encoded 8 (nameAttribute byte).spec.form (nameAttribute byte).content (nameAttribute byte).bytes :=
  .string fun other here => by rwa [List.mem_singleton.mp here]

theorem indexAttribute_encoded (type : AttributeType) (index : UInt8) (short : index.toNat < 128) :
    Encoded 8 (indexAttribute type index).spec.form (indexAttribute type index).content (indexAttribute type index).bytes :=
  .number rfl (unsigned_byte short)

theorem shortEntry_encoded (small : code.toNat ≠ 0 ∧ code.toNat < 128)
    (declared : abbreviations.find code.toNat = some (shortEntry code tag hasChildren attributes).declaration)
    (encoded : ∀ a ∈ attributes, Encoded 8 a.spec.form a.content a.bytes) :
    (shortEntry code tag hasChildren attributes).Encoded 8 abbreviations :=
  ⟨unsigned_byte small.2,small.1,declared,encoded⟩

theorem indexedRoot_encoded : indexedRoot.Encoded 8 (indexedDeclarations.map (·.declaration)).reverse := by
  refine shortEntry_encoded (by decide) (by decide) ?_
  intro a here
  rw [List.mem_singleton] at here
  subst here
  exact .fixed rfl rfl

theorem distanceEntry_encoded : distanceEntry.Encoded 8 (indexedDeclarations.map (·.declaration)).reverse := by
  refine shortEntry_encoded (by decide) (by decide) ?_
  intro a here
  simp only [List.mem_cons,List.not_mem_nil,or_false] at here
  rcases here with rfl | rfl | rfl
  · exact nameAttribute_encoded _ (by decide)
  · exact indexAttribute_encoded _ _ (by decide)
  · exact .fixed rfl rfl

theorem addressEntry_encoded : addressEntry.Encoded 8 (indexedDeclarations.map (·.declaration)).reverse := by
  refine shortEntry_encoded (by decide) (by decide) ?_
  intro a here
  simp only [List.mem_cons,List.not_mem_nil,or_false] at here
  rcases here with rfl | rfl | rfl
  · exact nameAttribute_encoded _ (by decide)
  · exact indexAttribute_encoded _ _ (by decide)
  · exact indexAttribute_encoded _ _ (by decide)

theorem declarationEntry_encoded : declarationEntry.Encoded 8 (indexedDeclarations.map (·.declaration)).reverse := by
  refine shortEntry_encoded (by decide) (by decide) ?_
  intro a here
  simp only [List.mem_cons,List.not_mem_nil,or_false] at here
  rcases here with rfl | rfl
  · exact nameAttribute_encoded _ (by decide)
  · exact .flagPresent

theorem definitionEntry_encoded : definitionEntry.Encoded 8 (indexedDeclarations.map (·.declaration)).reverse := by
  refine shortEntry_encoded (by decide) (by decide) ?_
  intro a here
  simp only [List.mem_cons,List.not_mem_nil,or_false] at here
  rcases here with rfl | rfl | rfl
  · exact .fixed rfl rfl
  · exact .fixed rfl rfl
  · exact .fixed rfl rfl

theorem indexed_nested (children : List Entry) (leaves : ∀ e ∈ children, e.hasChildren = false) :
    Nested 1 (children.map .entry ++ [.null [0]]) := by
  induction children with
  | nil => trivial
  | cons e children ih =>
      have leaf := leaves e (List.mem_cons_self ..)
      rw [List.map_cons,List.cons_append,Nested,leaf]
      exact ih fun other here => leaves other (List.mem_cons_of_mem _ here)

theorem indexed_wellFormed (children : List Entry) (leaves : ∀ e ∈ children, e.hasChildren = false)
    (encoded : ∀ e ∈ children, e.Encoded 8 (indexedDeclarations.map (·.declaration)).reverse)
    (short : (indexedUnit children).length < 0xfffffff0) : (indexedUnit children).WellFormed indexedSections where
  addressSize := .inr rfl
  length := short
  offset := show 0 < 2^32 by decide
  declared := ⟨[],indexedSections.debugAbbrev.bytes,[],by rw [List.append_nil,List.nil_append],rfl,
    table_encoded indexedDeclarations (by decide)⟩
  encoded := by
    intro item here
    rcases List.mem_cons.mp here with rfl | here
    · exact indexedRoot_encoded
    · rcases List.mem_append.mp here with here | here
      · obtain ⟨e,child,rfl⟩ := List.mem_map.mp here
        exact encoded e child
      · rw [List.mem_singleton] at here
        subst here
        exact unsigned_zero
  nested := indexed_nested children leaves

theorem indexedOwn_narrow : Narrow indexedOwn := ⟨by decide,by decide,by decide,by decide⟩

theorem forwardUnit_wellFormed : forwardUnit.WellFormed indexedSections := by
  refine indexed_wellFormed _ (by decide) ?_ (by decide)
  intro e here
  simp only [List.mem_cons,List.not_mem_nil,or_false] at here
  rcases here with rfl | rfl | rfl
  · exact definitionEntry_encoded
  · exact declarationEntry_encoded
  · exact distanceEntry_encoded

theorem addressUnit_wellFormed : addressUnit.WellFormed indexedSections := by
  refine indexed_wellFormed _ (by decide) ?_ (by decide)
  intro e here
  rw [List.mem_singleton] at here
  subst here
  exact addressEntry_encoded

theorem forwardUnit_placed : placed 12 forwardUnit.items =
    [(12,indexedRoot),(17,definitionEntry),(38,declarationEntry),(41,distanceEntry)] := by decide

theorem addressUnit_placed : placed 12 addressUnit.items = [(12,indexedRoot),(17,addressEntry)] := by decide

theorem indexed_address (index : Nat) (known : index = 0 ∨ index = 1) :
    (addressOf 8 indexedOwn (.addressIndex index)).isSome = true := by
  rcases known with rfl | rfl
  · decide
  · decide

theorem forwardUnit_proper : Proper indexedOwn (forwardUnit.context 0) forwardUnit.items (placed 12 forwardUnit.items) where
  narrow := indexedOwn_narrow
  distinct := by
    rw [forwardUnit_placed]
    intro pair here
    simp only [List.mem_cons,List.not_mem_nil,or_false] at here
    rcases here with rfl | rfl | rfl | rfl <;> exact List.nodup_iff_pairwise_ne.mpr (by decide)
  resolves := by
    intro a here
    have all : attributesOf forwardUnit.items = indexedRoot.attributes ++ (definitionEntry.attributes ++
      (declarationEntry.attributes ++ distanceEntry.attributes)) := by decide
    rw [all] at here
    simp only [indexedRoot,definitionEntry,declarationEntry,distanceEntry,shortEntry,List.cons_append,List.nil_append,
      List.mem_cons,List.not_mem_nil,or_false] at here
    rcases here with rfl | rfl | rfl | rfl | rfl | rfl | rfl | rfl | rfl
    case inr.inr.inr.inr.inr.inr.inr.inl => exact indexed_address 0 (.inl rfl)
    all_goals trivial
  allowed := by
    rw [forwardUnit_placed]
    intro pair here sub a among
    simp only [List.mem_cons,List.not_mem_nil,or_false] at here
    rcases here with rfl | rfl | rfl | rfl
    · cases sub
    · simp only [definitionEntry,shortEntry,List.mem_cons,List.not_mem_nil,or_false] at among
      rcases among with rfl | rfl | rfl <;> trivial
    · simp only [declarationEntry,shortEntry,List.mem_cons,List.not_mem_nil,or_false] at among
      rcases among with rfl | rfl <;> trivial
    · simp only [distanceEntry,shortEntry,List.mem_cons,List.not_mem_nil,or_false] at among
      rcases among with rfl | rfl | rfl
      · trivial
      · trivial
      · exact rfl
  targets := by
    rw [forwardUnit_placed]
    intro pair here sub offset refers
    simp only [List.mem_cons,List.not_mem_nil,or_false] at here
    rcases here with rfl | rfl | rfl | rfl
    · cases sub
    · cases refers
      exact ⟨declarationEntry,(by simp : (38,declarationEntry) ∈ _),rfl⟩
    · cases refers
    · cases refers

theorem forwardUnit_plain : Plain indexedOwn (forwardUnit.context 0) forwardUnit.items (placed 12 forwardUnit.items) where
  orderly := by
    have all : tagged forwardUnit.items = indexedRoot.attributes.map (.compileUnit,·) ++ (definitionEntry.attributes ++
      (declarationEntry.attributes ++ distanceEntry.attributes)).map (.subprogram,·) := by decide
    rw [all]
    exact ⟨⟨rfl,rfl,rfl⟩,trivial,trivial,trivial,trivial,trivial,trivial,trivial,trivial,trivial,trivial,trivial,trivial,
      trivial,trivial,rfl,trivial,trivial,trivial⟩
  readable := by
    rw [forwardUnit_placed]
    intro pair here sub a among
    simp only [List.mem_cons,List.not_mem_nil,or_false] at here
    rcases here with rfl | rfl | rfl | rfl
    · cases sub
    · simp only [definitionEntry,shortEntry,List.mem_cons,List.not_mem_nil,or_false] at among
      rcases among with rfl | rfl | rfl
      · exact .inl ⟨_,rfl⟩
      · exact rfl
      · exact .inl ⟨_,rfl,rfl⟩
    · simp only [declarationEntry,shortEntry,List.mem_cons,List.not_mem_nil,or_false] at among
      rcases among with rfl | rfl
      · exact rfl
      · trivial
    · simp only [distanceEntry,shortEntry,List.mem_cons,List.not_mem_nil,or_false] at among
      rcases among with rfl | rfl | rfl
      · exact rfl
      · exact indexed_address 0 (.inl rfl)
      · exact .inr ⟨_,rfl⟩
  named := by
    rw [forwardUnit_placed]
    intro pair here sub name
    simp only [List.mem_cons,List.not_mem_nil,or_false] at here
    rcases here with rfl | rfl | rfl | rfl
    · cases sub
    · cases name
    · cases name
    · cases name

def indexedState (u : CompilationUnit) : ParseState := ⟨[],0,false,indexedSections,ofSource u.bytes⟩

theorem addressUnit_proper : Proper indexedOwn (addressUnit.context 0) addressUnit.items (placed 12 addressUnit.items) where
  narrow := indexedOwn_narrow
  distinct := by
    rw [addressUnit_placed]
    intro pair here
    simp only [List.mem_cons,List.not_mem_nil,or_false] at here
    rcases here with rfl | rfl <;> exact List.nodup_iff_pairwise_ne.mpr (by decide)
  resolves := by
    intro a here
    have all : attributesOf addressUnit.items = indexedRoot.attributes ++ addressEntry.attributes := by decide
    rw [all] at here
    simp only [indexedRoot,addressEntry,shortEntry,List.cons_append,List.nil_append,List.mem_cons,List.not_mem_nil,
      or_false] at here
    rcases here with rfl | rfl | rfl | rfl
    · trivial
    · trivial
    · exact indexed_address 0 (.inl rfl)
    · exact indexed_address 1 (.inr rfl)
  allowed := by
    rw [addressUnit_placed]
    intro pair here sub a among
    simp only [List.mem_cons,List.not_mem_nil,or_false] at here
    rcases here with rfl | rfl
    · cases sub
    · simp only [addressEntry,shortEntry,List.mem_cons,List.not_mem_nil,or_false] at among
      rcases among with rfl | rfl | rfl <;> trivial
  targets := by
    rw [addressUnit_placed]
    intro pair here sub offset refers
    simp only [List.mem_cons,List.not_mem_nil,or_false] at here
    rcases here with rfl | rfl
    · cases sub
    · cases refers

theorem addressUnit_orderly : Orderly indexedOwn false false false (tagged addressUnit.items) := by
  have all : tagged addressUnit.items = indexedRoot.attributes.map (.compileUnit,·) ++
    addressEntry.attributes.map (.subprogram,·) := by decide
  rw [all]
  exact ⟨⟨rfl,rfl,rfl⟩,trivial,trivial,trivial,trivial,rfl,trivial,rfl,trivial⟩

end Examples

end DwarfSubprograms
