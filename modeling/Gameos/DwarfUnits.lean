import Gameos.DwarfAbbreviations
import Gameos.DwarfWalk

-- Compilation units one behind the other, and that none of them changes what
-- is found in the next.
namespace DwarfUnits
open MachineWords ByteReader BoundedLoops Dwarf LineProgram DwarfEncoding DwarfAbbreviations DwarfWalk

-- A full or partial unit of the 32 bit format, with the declarations its
-- entries use.
structure CompilationUnit where
  type : UInt8
  addressSize : UInt8
  abbreviationOffset : Nat
  declarations : List (Nat × Abbreviation)
  items : List Item
deriving DecidableEq, Repr

namespace CompilationUnit

def length (u : CompilationUnit) : Nat := 8 + (bytesOfItems u.items).length

def head (u : CompilationUnit) : List UInt8 :=
  bytesOf 4 u.length ++ (bytesOf 2 5 ++ (u.type :: u.addressSize :: bytesOf 4 u.abbreviationOffset))

def bytes (u : CompilationUnit) : List UInt8 := u.head ++ bytesOfItems u.items

structure WellFormed (sections : Sections) (u : CompilationUnit) : Prop where
  addressSize : u.addressSize.toNat = 4 ∨ u.addressSize.toNat = 8
  length : u.length < 0xfffffff0
  offset : u.abbreviationOffset < 2^32
  declared : ∃ front table rest, sections.debugAbbrev.bytes = front ++ (table ++ rest) ∧
    front.length = u.abbreviationOffset ∧ EncodedTable u.declarations table
  encoded : ∀ item ∈ u.items, item.Encoded u.addressSize.toNat u.declarations.reverse
  nested : Nested 0 u.items

def header (u : CompilationUnit) : CompilationUnitHeader :=
  ⟨u.length,5,u.type.toNat,u.addressSize.toNat,u.abbreviationOffset⟩

-- The walk over the unit where it begins at `start`.
def context (u : CompilationUnit) (start : Nat) : UnitContext :=
  ⟨start,start + u.bytes.length,u.declarations.reverse,u.addressSize.toNat⟩

theorem head_length (u : CompilationUnit) : u.head.length = 12 := by
  simp only [head,List.length_append,List.length_cons,bytesOf_length]

theorem bytes_length (u : CompilationUnit) : u.bytes.length = 4 + u.length := by
  rw [bytes,List.length_append,head_length,length]
  omega

end CompilationUnit

section Turn
variable {u : CompilationUnit} {sections : Sections} {reader : ByteReader}

theorem header_parsed (wellFormed : u.WellFormed sections) (stands : Stands reader before (u.bytes ++ after)) :
    parseCompilationUnitHeader reader = .ok (u.header,reader.advance u.head.length) := by
  have wide := wellFormed.length
  have length : littleEndian (bytesOf 4 u.length) = u.length := littleEndian_bytesOf (by omega)
  have five : littleEndian (bytesOf 2 5) = 5 := littleEndian_bytesOf (by decide)
  have offset : littleEndian (bytesOf 4 u.abbreviationOffset) = u.abbreviationOffset :=
    littleEndian_bytesOf wellFormed.offset
  simp only [CompilationUnit.bytes,CompilationUnit.head,List.append_assoc,List.cons_append] at stands
  have version := stands.advance
  have type := version.advance
  have addressSize := type.advance_one
  have abbreviationOffset := addressSize.advance_one
  rw [parseCompilationUnitHeader,readU32,stands.readLittleEndian (bytesOf_length 4 _),asserted_ok,ok_bind,length]
  dsimp only
  rw [if_neg (by omega),readU16,version.readLittleEndian (bytesOf_length 2 _),asserted_ok,ok_bind,five]
  dsimp only
  rw [if_neg (by decide),type.readU8,asserted_ok,ok_bind]
  dsimp only
  rw [addressSize.readU8,asserted_ok,ok_bind]
  dsimp only
  rw [readU32,abbreviationOffset.readLittleEndian (bytesOf_length 4 _),asserted_ok,ok_bind,offset]
  simp only [advance_advance,bytesOf_length,CompilationUnit.head_length]
  rfl

-- The declarations of the unit, out of its section.
theorem declarations_parsed (wellFormed : u.WellFormed sections) (same : debugAbbrev = sections.debugAbbrev)
    (enough : debugAbbrev.bytes.length < turns) :
    normalizeSectionOffset debugAbbrev u.abbreviationOffset = .ok u.abbreviationOffset ∧
    ∃ rest, parseAbbreviations turns (ofSource (debugAbbrev.bytes.drop u.abbreviationOffset)) =
      .ok (u.declarations.reverse,rest) := by
  obtain ⟨front,table,rest,split,place,encoded⟩ := wellFormed.declared
  rw [← same] at split
  have inside : u.abbreviationOffset ≤ debugAbbrev.bytes.length := by
    rw [split,List.length_append]
    omega
  have ahead : debugAbbrev.bytes.drop u.abbreviationOffset = table ++ rest := by
    rw [split,← place,List.drop_left]
  have short : table.length < turns := by
    rw [split,List.length_append,List.length_append] at enough
    omega
  have stands : Stands (ofSource (table ++ rest)) [] (table ++ rest) := ⟨rfl,rfl⟩
  refine ⟨?_,(ofSource (table ++ rest)).advance table.length,?_⟩
  · rw [normalizeSectionOffset,if_pos inside]
    rfl
  · rw [ahead]
    exact abbreviations_parsed encoded stands short

theorem contextOf_unit {state : ParseState} (stands : Stands state.debugInfo before (u.bytes ++ after))
    (small : before.length + u.bytes.length < 2^63) :
    contextOf state u.header u.declarations.reverse = u.context before.length := by
  have offset : toU64 state.debugInfo.currentOffset = before.length := by rw [stands.offset,toU64_nat _ (by omega)]
  have length := u.bytes_length
  unfold contextOf
  rw [offset,add64_of_lt (a:=before.length) (by omega),CompilationUnit.header]
  dsimp only
  rw [add64_of_lt (by omega),CompilationUnit.context,length,Nat.add_assoc]

-- A turn of the loop over the units, where a unit that is well formed begins.
theorem unit_turn {state : ParseState} (wellFormed : u.WellFormed sections)
    (same : state.sections.debugAbbrev = sections.debugAbbrev)
    (stands : Stands state.debugInfo before (u.bytes ++ after)) (small : before.length + u.bytes.length < 2^63)
    (enough : sections.debugAbbrev.bytes.length < turns ∧ u.bytes.length < turns) :
    unitTurn turns state = (walkItems (u.context before.length) (before.length + 12) u.items (.init state.sections)).map
      fun unit => .again (afterUnit state (unit.pendingSubprograms.filterMap (subprogramInfo unit.names)) unit
        (state.debugInfo.advance u.bytes.length) (before.length + u.bytes.length)) := by
  obtain ⟨normalized,rest,parsed⟩ := declarations_parsed wellFormed same (show _ < turns by rw [same]; exact enough.1)
  have length := u.bytes_length
  have left : ¬ state.debugInfo.remaining ≤ 0 := by
    rw [stands.remaining,List.length_append,length]
    omega
  have head := header_parsed wellFormed stands
  have context := contextOf_unit (u:=u) stands small
  have items : Stands (state.debugInfo.advance u.head.length) (before ++ u.head) (bytesOfItems u.items ++ after) := by
    rw [CompilationUnit.bytes,List.append_assoc] at stands
    exact stands.advance
  have ends : (u.context before.length).unitEnd = (before ++ u.head).length + (bytesOfItems u.items).length := by
    rw [CompilationUnit.context,CompilationUnit.bytes,List.length_append,List.length_append]
    dsimp only
    omega
  have many : u.items.length < turns := by
    have short := items_short wellFormed.encoded
    rw [CompilationUnit.length] at length
    omega
  have last : (state.debugInfo.advance u.head.length).advance (bytesOfItems u.items).length =
      state.debugInfo.advance u.bytes.length := by
    rw [advance_advance,CompilationUnit.bytes,List.length_append,Int.natCast_add]
  have walked := walk_items u.items turns (.init state.sections) wellFormed.encoded wellFormed.nested wellFormed.addressSize
    items ends (show before.length + u.bytes.length < 2^64 by omega) many
  rw [unitTurn,if_neg left,head,ok_bind]
  dsimp only [CompilationUnit.header] at context ⊢
  rw [normalized,ok_bind,parsed,ok_bind]
  dsimp only
  rw [context,parseCompilationUnitDebugInformationEntries,walked,last,List.length_append,u.head_length]
  cases walkItems (u.context before.length) (before.length + 12) u.items (.init state.sections) with
  | error fault => rfl
  | ok unit => rfl

end Turn

-- Two computations that fail alike or give related results.
def Both (related : α → β → Prop) : Except Failure α → Except Failure β → Prop
  | .error fault, .error fault' => fault = fault'
  | .ok a, .ok b => related a b
  | _, _ => False

theorem both_bind {first : Except Failure α} {first' : Except Failure β} {next : α → Except Failure γ}
    {next' : β → Except Failure δ} {related : α → β → Prop} {related' : γ → δ → Prop} (one : Both related first first')
    (two : ∀ a b, related a b → Both related' (next a) (next' b)) : Both related' (first >>= next) (first' >>= next') := by
  cases first with
  | error fault =>
      cases first' with
      | error fault' => exact one
      | ok b => cases one
  | ok a =>
      cases first' with
      | error fault' => cases one
      | ok b => exact two a b one

theorem both_map {first : Except Failure α} {first' : Except Failure β} {f : α → γ} {g : β → δ} {related : α → β → Prop}
    {related' : γ → δ → Prop} (both : Both related first first')
    (keeps : ∀ a b, first = .ok a → first' = .ok b → related a b → related' (f a) (g b)) :
    Both related' (first.map f) (first'.map g) := by
  cases first with
  | error fault =>
      cases first' with
      | error fault' => exact both
      | ok b => cases both
  | ok a =>
      cases first' with
      | error fault' => cases both
      | ok b => exact keeps a b rfl rfl both

theorem both_refl (result : Except Failure α) : Both Eq result result := by
  cases result with
  | error fault => rfl
  | ok value => rfl

theorem both_error (fault : Failure) (related : α → β → Prop) :
    Both related (.error fault : Except Failure α) (.error fault : Except Failure β) := rfl

section Independence
variable {shift : Nat}

-- An offset that counts from the start of the unit, and that it may be absent.
def OffsetAlike (shift offset offset' : Nat) : Prop :=
  (offset = 0 ∧ offset' = 0) ∨ (offset' < 2^64 ∧ offset = add64 shift offset')

theorem offset_alike (shift offset : Nat) : OffsetAlike shift (add64 shift offset) (add64 0 offset) := by
  refine .inr ⟨add64_lt,?_⟩
  unfold add64
  omega

structure EntryAlike (shift : Nat) (entry entry' : EntryState) : Prop where
  same : {entry with specificationOffset := 0} = {entry' with specificationOffset := 0}
  specification : OffsetAlike shift entry.specificationOffset entry'.specificationOffset
  unnamed : entry'.hasName = false → entry'.name = []

structure PendingAlike (shift : Nat) (pending pending' : PendingSubprogram) : Prop where
  same : {pending with specificationOffset := 0} = {pending' with specificationOffset := 0}
  specification : OffsetAlike shift pending.specificationOffset pending'.specificationOffset
  unnamed : pending'.hasName = false → pending'.name = []

-- What the walks over one unit at `shift` and at the start of the section have
-- found. Before the unit has its bases, the sections may hold any.
structure Alike (shift : Nat) (unit unit' : UnitState) : Prop where
  names : unit.names = unit'.names.map fun (key,name) => (key + shift,name)
  keys : ∀ pair ∈ unit'.names, 0 < pair.1 ∧ pair.1 + shift < 2^64
  pending : List.Forall₂ (PendingAlike shift) unit.pendingSubprograms unit'.pendingSubprograms
  line : unit.debugLineOffset = unit'.debugLineOffset ∧ unit.hasDebugLineOffset = unit'.hasDebugLineOffset
  bases : unit.hasDebugStrOffsetsBase = unit'.hasDebugStrOffsetsBase ∧ unit.hasDebugAddrBase = unit'.hasDebugAddrBase
  contents : contents unit.sections = contents unit'.sections
  strings : unit'.hasDebugStrOffsetsBase = true → unit.sections.debugStrOffsetsBase = unit'.sections.debugStrOffsetsBase
  addresses : unit'.hasDebugAddrBase = true → unit.sections.debugAddrBase = unit'.sections.debugAddrBase

-- Each index is read after the base it counts from.
def Settled : Bool → Bool → List Attribute → Prop
  | _, _, [] => True
  | strings, addresses, a :: attributes =>
    (∀ index, a.content = .textIndex index → strings = true) ∧
    (∀ index, a.content = .addressIndex index → addresses = true) ∧
    Settled (strings || a.spec.attributeType = .strOffsetsBase) (addresses || a.spec.attributeType = .addrBase) attributes

def attributesOf (items : List Item) : List Attribute := items.flatMap fun
  | .entry e => e.attributes
  | .null _ => []

theorem meaning_alike {unit unit' : UnitState} (alike : Alike shift unit unit') (content : Content)
    (strings : ∀ index, content = .textIndex index → unit'.hasDebugStrOffsetsBase = true)
    (addresses : ∀ index, content = .addressIndex index → unit'.hasDebugAddrBase = true) :
    meaning addressSize implicitConst unit.sections content = meaning addressSize implicitConst unit'.sections content := by
  refine meaning_same alike.contents content ?_ ?_
  · exact fun index indexed => alike.strings (strings index indexed)
  · exact fun index indexed => alike.addresses (addresses index indexed)

theorem recordSubprogram_alike {entry entry' : EntryState} (alike : EntryAlike shift entry entry') (spec : AttributeSpec)
    (value : AttributeValue) :
    Both (EntryAlike shift) (recordSubprogram shift spec value entry) (recordSubprogram 0 spec value entry') := by
  obtain ⟨hasName,hasLowPc,hasHighPc,name,lowPc,highPcRaw,specification,highPcIsOffset⟩ := entry
  obtain ⟨same,specified,unnamed⟩ := alike
  cases entry'
  cases same
  unfold recordSubprogram
  split
  · refine both_bind (both_refl (stringOf value)) ?_
    rintro text _ rfl
    exact ⟨rfl,specified,fun wrong => nomatch wrong⟩
  · refine both_bind (both_refl (unsignedOf value)) ?_
    rintro address _ rfl
    exact ⟨rfl,specified,unnamed⟩
  · refine both_bind (both_refl (unsignedOf value)) ?_
    rintro raw _ rfl
    exact ⟨rfl,specified,unnamed⟩
  · refine both_bind (both_refl (unsignedOf value)) ?_
    rintro offset _ rfl
    exact ⟨rfl,offset_alike shift offset,unnamed⟩
  · exact ⟨rfl,specified,unnamed⟩

-- The bases that a unit has after an attribute.
structure Settles (spec : AttributeSpec) (before after : UnitState) : Prop where
  strings : after.hasDebugStrOffsetsBase = (before.hasDebugStrOffsetsBase || spec.attributeType = .strOffsetsBase)
  addresses : after.hasDebugAddrBase = (before.hasDebugAddrBase || spec.attributeType = .addrBase)

theorem recordUnit_alike {unit unit' : UnitState} (alike : Alike shift unit unit') (tag : Tag) (spec : AttributeSpec)
    (value : AttributeValue) :
    Both (fun a b => Alike shift a b ∧ Settles spec unit' b) (recordUnit tag spec value unit)
      (recordUnit tag spec value unit') := by
  have line := alike.line.2
  have strings := alike.bases.1
  have addresses := alike.bases.2
  unfold recordUnit
  split
  · rename_i type
    split
    · exact both_error _ _
    · rw [line]
      split
      · exact both_error _ _
      · refine both_bind (both_refl (unsignedOf value)) ?_
        rintro offset _ rfl
        exact ⟨⟨alike.names,alike.keys,alike.pending,⟨rfl,rfl⟩,alike.bases,alike.contents,alike.strings,alike.addresses⟩,
          by simp [type],by simp [type]⟩
  · rename_i type
    split
    · exact both_error _ _
    · rw [strings]
      split
      · exact both_error _ _
      · refine both_bind (both_refl (unsignedOf value)) ?_
        rintro base _ rfl
        exact ⟨⟨alike.names,alike.keys,alike.pending,alike.line,⟨rfl,addresses⟩,alike.contents,fun _ => rfl,alike.addresses⟩,
          by simp [type],by simp [type]⟩
  · rename_i type
    split
    · exact both_error _ _
    · rw [addresses]
      split
      · exact both_error _ _
      · refine both_bind (both_refl (unsignedOf value)) ?_
        rintro base _ rfl
        exact ⟨⟨alike.names,alike.keys,alike.pending,alike.line,⟨strings,rfl⟩,alike.contents,alike.strings,fun _ => rfl⟩,
          by simp [type],by simp [type]⟩
  · rename_i other strOffsets addr
    have noStrings : spec.attributeType ≠ .strOffsetsBase := strOffsets
    have noAddresses : spec.attributeType ≠ .addrBase := addr
    exact ⟨alike,by simp [noStrings],by simp [noAddresses]⟩

theorem recordAttribute_alike {unit unit' : UnitState} {entry entry' : EntryState} (alike : Alike shift unit unit')
    (alike' : EntryAlike shift entry entry') (moved : context.unitStart = shift) (alone : context'.unitStart = 0) (tag : Tag)
    (spec : AttributeSpec) (value : AttributeValue) :
    Both (fun a b => EntryAlike shift a.1 b.1 ∧ Alike shift a.2 b.2 ∧ Settles spec unit' b.2)
      (recordAttribute context tag spec value entry unit) (recordAttribute context' tag spec value entry' unit') := by
  unfold recordAttribute
  rw [moved,alone]
  have entries : Both (EntryAlike shift)
      (if tag = .subprogram then recordSubprogram shift spec value entry else .ok entry)
      (if tag = .subprogram then recordSubprogram 0 spec value entry' else .ok entry') := by
    split
    · exact recordSubprogram_alike alike' spec value
    · exact alike'
  refine both_bind entries ?_
  intro a b recorded
  refine both_bind (recordUnit_alike alike tag spec value) ?_
  rintro c d ⟨units,settles⟩
  exact ⟨recorded,units,settles⟩

theorem readContents_alike {unit unit' : UnitState} {entry entry' : EntryState} (attributes : List Attribute)
    (rest : List Attribute) (alike : Alike shift unit unit') (alike' : EntryAlike shift entry entry')
    (moved : context.unitStart = shift) (alone : context'.unitStart = 0) (width : context.addressSize = context'.addressSize)
    (tag : Tag) (settled : Settled unit'.hasDebugStrOffsetsBase unit'.hasDebugAddrBase (attributes ++ rest)) :
    Both (fun a b => EntryAlike shift a.1 b.1 ∧ Alike shift a.2 b.2 ∧
        Settled b.2.hasDebugStrOffsetsBase b.2.hasDebugAddrBase rest)
      (readContents context tag attributes entry unit) (readContents context' tag attributes entry' unit') := by
  induction attributes generalizing unit unit' entry entry' with
  | nil => exact ⟨alike',alike,settled⟩
  | cons a attributes ih =>
      obtain ⟨strings,addresses,settled⟩ := settled
      rw [readContents,readContents,meaning_alike alike a.content strings addresses,width]
      refine both_bind (both_refl _) ?_
      rintro value _ rfl
      refine both_bind (recordAttribute_alike alike alike' moved alone tag a.spec value) ?_
      rintro ⟨b,c⟩ ⟨d,e⟩ ⟨entries,units,settles⟩
      refine ih units entries ?_
      rwa [settles.strings,settles.addresses]

theorem alike_scoped {unit unit' : UnitState} (alike : Alike shift unit unit') (stack stack' : List Bool) :
    Alike shift {unit with scopeStack := stack} {unit' with scopeStack := stack'} :=
  ⟨alike.names,alike.keys,alike.pending,alike.line,alike.bases,alike.contents,alike.strings,alike.addresses⟩

theorem alike_named {unit unit' : UnitState} (alike : Alike shift unit unit') (name : List UInt8) (positive : 0 < offset)
    (small : offset + shift < 2^64) : Alike shift {unit with names := unit.names.set (offset + shift) name}
      {unit' with names := unit'.names.set offset name} := by
  refine ⟨?_,?_,alike.pending,alike.line,alike.bases,alike.contents,alike.strings,alike.addresses⟩
  · rw [Table.set,Table.set,List.map_cons,alike.names]
  · intro pair here
    rcases List.mem_cons.mp here with rfl | here
    · exact ⟨positive,small⟩
    · exact alike.keys pair here

theorem alike_pending {unit unit' : UnitState} (alike : Alike shift unit unit')
    (pending : PendingAlike shift sub sub') : Alike shift {unit with pendingSubprograms := unit.pendingSubprograms ++ [sub]}
      {unit' with pendingSubprograms := unit'.pendingSubprograms ++ [sub']} :=
  ⟨alike.names,alike.keys,List.rel_append alike.pending (.cons pending .nil),alike.line,alike.bases,alike.contents,
    alike.strings,alike.addresses⟩

theorem recordEntry_alike {unit unit' : UnitState} {entry entry' : EntryState} (declaration : Abbreviation)
    (alike : Alike shift unit unit') (alike' : EntryAlike shift entry entry') (offset : Nat) (positive : 0 < offset)
    (small : offset + shift < 2^64) :
    Alike shift (recordEntry declaration (offset + shift) entry unit) (recordEntry declaration offset entry' unit') := by
  obtain ⟨hasName,hasLowPc,hasHighPc,name,lowPc,highPcRaw,specification,highPcIsOffset⟩ := entry
  obtain ⟨same,specified,unnamed⟩ := alike'
  obtain ⟨_,_,_,_,_,_,specification',_⟩ := entry'
  cases same
  have inner : ∀ {a b : UnitState}, Alike shift a b →
      Alike shift (if declaration.hasChildren then {a with scopeStack := true :: a.scopeStack} else a)
        (if declaration.hasChildren then {b with scopeStack := true :: b.scopeStack} else b) := by
    intro a b both
    split
    · exact alike_scoped both _ _
    · exact both
  unfold recordEntry
  refine inner ?_
  split
  · have pending : ∀ {a b : UnitState}, Alike shift a b → Alike shift
        (if hasLowPc ∧ hasHighPc then {a with pendingSubprograms := a.pendingSubprograms ++
          [⟨specification,name,lowPc,highPcRaw,hasName,highPcIsOffset⟩]} else a)
        (if hasLowPc ∧ hasHighPc then {b with pendingSubprograms := b.pendingSubprograms ++
          [⟨specification',name,lowPc,highPcRaw,hasName,highPcIsOffset⟩]} else b) := by
      intro a b both
      split
      · exact alike_pending both ⟨rfl,specified,unnamed⟩
      · exact both
    refine pending ?_
    split
    · exact alike_named alike name positive small
    · exact alike
  · exact alike

theorem recordEntry_bases {declaration : Abbreviation} {offset : Nat} {entry : EntryState} {unit : UnitState} :
    (recordEntry declaration offset entry unit).hasDebugStrOffsetsBase = unit.hasDebugStrOffsetsBase ∧
    (recordEntry declaration offset entry unit).hasDebugAddrBase = unit.hasDebugAddrBase := by
  unfold recordEntry
  dsimp only
  split_ifs <;> exact ⟨rfl,rfl⟩

theorem walk_alike {unit unit' : UnitState} (context context' : UnitContext) (items : List Item) (alike : Alike shift unit unit')
    (moved : context.unitStart = shift) (alone : context'.unitStart = 0) (width : context.addressSize = context'.addressSize)
    (offset : Nat) (positive : 0 < offset) (small : offset + (bytesOfItems items).length + shift < 2^64)
    (settled : Settled unit'.hasDebugStrOffsetsBase unit'.hasDebugAddrBase (attributesOf items)) :
    Both (Alike shift) (walkItems context (offset + shift) items unit) (walkItems context' offset items unit') := by
  induction items generalizing unit unit' offset with
  | nil => exact alike
  | cons item items ih =>
      have bytes : (bytesOfItems (item :: items)).length = item.bytes.length + (bytesOfItems items).length := by
        rw [bytesOfItems,List.flatMap_cons,List.length_append]
        rfl
      rw [bytes] at small
      rw [attributesOf,List.flatMap_cons] at settled
      cases item with
      | entry e =>
          rw [walkItems,walkItems]
          have start : EntryAlike shift .init .init := ⟨rfl,.inl ⟨rfl,rfl⟩,fun _ => rfl⟩
          refine both_bind (readContents_alike e.attributes _ alike start moved alone width e.tag settled) ?_
          rintro ⟨a,b⟩ ⟨c,d⟩ ⟨entries,units,settled⟩
          have here : (Item.entry e).bytes = e.bytes := rfl
          rw [here] at small
          have recorded := recordEntry_alike e.declaration units entries offset positive (by omega)
          have rest := ih recorded (offset + e.bytes.length) (by omega) (by omega)
            (by rwa [recordEntry_bases.1,recordEntry_bases.2])
          rwa [Nat.add_right_comm] at rest
      | null closing =>
          rw [walkItems,walkItems]
          have here : (Item.null closing).bytes = closing := rfl
          rw [here] at small
          have rest := ih (alike_scoped alike unit.scopeStack.tail unit'.scopeStack.tail) (offset + closing.length) (by omega)
            (by omega) settled
          rwa [Nat.add_right_comm] at rest

theorem find_alike (names : Table (List UInt8)) (keys : ∀ pair ∈ names, 0 < pair.1 ∧ pair.1 + shift < 2^64)
    (small : offset < 2^64) : Table.find (names.map fun (key,name) => (key + shift,name)) (add64 shift offset) =
      names.find offset := by
  induction names with
  | nil => rfl
  | cons pair names ih =>
      obtain ⟨key,name⟩ := pair
      obtain ⟨positive,bound⟩ := keys _ (List.mem_cons_self ..)
      have rest := ih fun other here => keys other (List.mem_cons_of_mem _ here)
      have same : key + shift = add64 shift offset ↔ key = offset := by
        unfold add64
        omega
      unfold Table.find at rest ⊢
      rw [List.map_cons,List.find?_cons,List.find?_cons]
      dsimp only
      rw [decide_eq_decide.mpr same]
      cases decide (key = offset) with
      | true => rfl
      | false => exact rest

theorem find_outside (names : Table (List UInt8)) (outside : ∀ pair ∈ names, pair.1 ≠ offset) :
    names.find offset = none := by
  unfold Table.find
  rw [List.find?_eq_none.mpr fun pair here => by simpa using outside pair here]
  rfl

-- The same subprograms come of both.
theorem subprogramInfo_alike (names : Table (List UInt8)) (keys : ∀ pair ∈ names, 0 < pair.1 ∧ pair.1 + shift < 2^64)
    (alike : PendingAlike shift pending pending') :
    subprogramInfo (names.map fun (key,name) => (key + shift,name)) pending = subprogramInfo names pending' := by
  obtain ⟨specification,name,lowPc,highPc,hasName,highPcIsOffset⟩ := pending
  obtain ⟨same,specified,unnamed⟩ := alike
  obtain ⟨specification',_,_,_,_,_⟩ := pending'
  cases same
  unfold subprogramInfo
  dsimp only at specified unnamed ⊢
  cases hasName with
  | true => rfl
  | false =>
      have empty := unnamed rfl
      subst empty
      rcases specified with ⟨rfl,rfl⟩ | ⟨small,rfl⟩
      · rfl
      · rw [find_alike names keys small]
        by_cases zero : specification' = 0
        · have outside : names.find 0 = none := find_outside names fun pair here => by
            have positive := (keys pair here).1
            omega
          subst zero
          rw [outside]
          split_ifs <;> rfl
        · by_cases wraps : add64 shift specification' = 0
          · have outside : names.find specification' = none := find_outside names fun pair here => by
              have bound := (keys pair here).2
              unfold add64 at wraps
              omega
            rw [outside]
            split_ifs <;> rfl
          · have one : false = false ∧ add64 shift specification' ≠ 0 := ⟨rfl,wraps⟩
            have two : false = false ∧ specification' ≠ 0 := ⟨rfl,zero⟩
            rw [if_pos one,if_pos two]

theorem infos_alike {unit unit' : UnitState} (alike : Alike shift unit unit') :
    unit.pendingSubprograms.filterMap (subprogramInfo unit.names) =
      unit'.pendingSubprograms.filterMap (subprogramInfo unit'.names) := by
  have pending := alike.pending
  have keys := alike.keys
  rw [alike.names]
  generalize unit.pendingSubprograms = left at pending
  generalize unit'.pendingSubprograms = right at pending
  induction pending with
  | nil => rfl
  | cons here _ ih => rw [List.filterMap_cons,List.filterMap_cons,subprogramInfo_alike _ keys here,ih]

end Independence

section Sequences
variable {sections : Sections}

-- The infos of a unit by itself.
def alone (turns : Nat) (sections : Sections) (u : CompilationUnit) : Except Failure (List SubprogramInfo) :=
  (parseSubprograms turns sections (ofSource u.bytes)).map (·.infos)

-- What the walk over a unit finds, with the section starting at the unit.
def found (sections : Sections) (u : CompilationUnit) : Except Failure (List SubprogramInfo) :=
  (walkItems (u.context 0) 12 u.items (.init sections)).map fun unit =>
    unit.pendingSubprograms.filterMap (subprogramInfo unit.names)

-- Wherever the unit begins and whatever bases are left from the units before
-- it, its turn finds the same or stops the same way.
theorem unit_turn_found {state : ParseState} {u : CompilationUnit} (wellFormed : u.WellFormed sections)
    (settled : Settled false false (attributesOf u.items)) (same : contents state.sections = contents sections)
    (stands : Stands state.debugInfo before (u.bytes ++ after)) (small : before.length + u.bytes.length < 2^63)
    (enough : sections.debugAbbrev.bytes.length < turns ∧ u.bytes.length < turns) :
    Both (fun outcome infos => ∃ t, outcome = .again t ∧ t.infos = state.infos ++ infos ∧
        contents t.sections = contents sections ∧ Stands t.debugInfo (before ++ u.bytes) after)
      (unitTurn turns state) (found sections u) := by
  have length := u.bytes_length
  rw [CompilationUnit.length] at length
  have start : Alike before.length (.init state.sections) (.init sections) :=
    ⟨rfl,fun _ wrong => (nomatch wrong),.nil,⟨rfl,rfl⟩,⟨rfl,rfl⟩,same,fun wrong => (nomatch wrong),
      fun wrong => (nomatch wrong)⟩
  have walked := walk_alike (u.context before.length) (u.context 0) u.items start rfl rfl rfl 12
    (by decide) (by omega) settled
  rw [unit_turn wellFormed (contents_debugAbbrev same) stands small enough,found]
  rw [Nat.add_comm 12] at walked
  refine both_map walked ?_
  intro unit unit' _ walked alike
  refine ⟨_,rfl,?_,?_,?_⟩
  · rw [afterUnit_infos,infos_alike alike]
  · rw [afterUnit_sections,alike.contents,walkItems_contents u.items walked]
    rfl
  · refine ⟨?_,?_⟩
    · unfold advance
      rw [afterUnit_source]
      exact stands.advance.source
    · rw [afterUnit_offset,toS64_of_range (by omega) (by omega),List.length_append]

theorem units_found {inner : Nat} (units : List CompilationUnit) (wellFormed : ∀ u ∈ units, u.WellFormed sections)
    (settled : ∀ u ∈ units, Settled false false (attributesOf u.items)) (state : ParseState)
    (same : contents state.sections = contents sections)
    (stands : Stands state.debugInfo before (units.flatMap (·.bytes)))
    (small : before.length + (units.flatMap (·.bytes)).length < 2^63)
    (enough : sections.debugAbbrev.bytes.length < inner ∧ (units.flatMap (·.bytes)).length < inner)
    (turns : Nat) (many : units.length < turns) :
    (loop .outOfSteps (unitTurn inner) turns state).map (·.infos) =
      (units.mapM (found sections)).map fun infos => state.infos ++ infos.flatten := by
  obtain ⟨turns,rfl⟩ : ∃ more, turns = more + 1 := ⟨turns-1,by omega⟩
  induction units generalizing state before turns with
  | nil =>
      have exceeds : state.debugInfo.remaining ≤ 0 := by
        rw [stands.remaining]
        exact Int.le_refl _
      have turned : unitTurn inner state = .ok (.done state) := by
        rw [unitTurn,if_pos exceeds]
        rfl
      rw [loop_done turned,List.mapM_nil]
      show Except.ok state.infos = Except.ok (state.infos ++ [])
      rw [List.append_nil]
  | cons u units ih =>
      rw [List.flatMap_cons] at stands
      rw [List.flatMap_cons,List.length_append] at small enough
      have turned := unit_turn_found (wellFormed u (List.mem_cons_self ..)) (settled u (List.mem_cons_self ..)) same stands
        (by omega) ⟨enough.1,by omega⟩
      rw [List.mapM_cons]
      cases step : unitTurn inner state with
      | error fault =>
          rw [step] at turned
          cases here : found sections u with
          | error fault' =>
              rw [here] at turned
              cases turned
              rw [loop_error step]
              rfl
          | ok infos =>
              rw [here] at turned
              cases turned
      | ok outcome =>
          rw [step] at turned
          cases here : found sections u with
          | error fault =>
              rw [here] at turned
              cases turned
          | ok infos =>
              rw [here] at turned
              obtain ⟨t,rfl,added,kept,ahead⟩ := turned
              obtain ⟨turns,rfl⟩ : ∃ more, turns = more + 1 := ⟨turns-1,by rw [List.length_cons] at many; omega⟩
              rw [List.length_cons] at many
              have rest := ih (fun u here => wellFormed u (List.mem_cons_of_mem _ here))
                (fun u here => settled u (List.mem_cons_of_mem _ here)) t kept ahead
                (by rw [List.length_append]; omega) ⟨enough.1,by omega⟩ turns (by omega)
              rw [loop_again step,rest,added]
              cases units.mapM (found sections) with
              | error fault => rfl
              | ok lists => exact congrArg Except.ok (List.append_assoc ..)

theorem units_short (units : List CompilationUnit) : units.length ≤ (units.flatMap (·.bytes)).length := by
  induction units with
  | nil => exact Nat.zero_le _
  | cons u units ih =>
      have length := u.bytes_length
      rw [List.flatMap_cons,List.length_append,List.length_cons]
      omega

theorem parse_found (units : List CompilationUnit) (wellFormed : ∀ u ∈ units, u.WellFormed sections)
    (settled : ∀ u ∈ units, Settled false false (attributesOf u.items)) (small : (units.flatMap (·.bytes)).length < 2^63)
    (enough : sections.debugAbbrev.bytes.length < turns ∧ (units.flatMap (·.bytes)).length < turns) :
    (parseSubprograms turns sections (ofSource (units.flatMap (·.bytes)))).map (·.infos) =
      (units.mapM (found sections)).map List.flatten := by
  have start : Stands (ofSource (units.flatMap (·.bytes))) [] (units.flatMap (·.bytes)) := ⟨rfl,rfl⟩
  have short := units_short units
  have whole := units_found units wellFormed settled ⟨[],0,false,sections,ofSource (units.flatMap (·.bytes))⟩ rfl start
    (by simpa using small) enough turns (by omega)
  rw [parseSubprograms,whole]
  simp only [List.nil_append]

-- By itself a unit gives what its walk finds.
theorem alone_found {u : CompilationUnit} (wellFormed : u.WellFormed sections)
    (settled : Settled false false (attributesOf u.items)) (small : u.bytes.length < 2^63)
    (enough : sections.debugAbbrev.bytes.length < turns ∧ u.bytes.length < turns) :
    alone turns sections u = found sections u := by
  have one : [u].flatMap (·.bytes) = u.bytes := by rw [List.flatMap_singleton]
  have whole := parse_found [u] (fun v here => by rwa [List.mem_singleton.mp here])
    (fun v here => by rwa [List.mem_singleton.mp here]) (by rwa [one]) (by rwa [one])
  rw [one] at whole
  rw [alone,whole,List.mapM_cons,List.mapM_nil]
  cases found sections u with
  | error fault => rfl
  | ok infos => exact congrArg Except.ok (List.append_nil _)

theorem mapM_same {f g : α → Except Failure β} (list : List α) (same : ∀ a ∈ list, f a = g a) : list.mapM f = list.mapM g := by
  induction list with
  | nil => rfl
  | cons a list ih =>
      rw [List.mapM_cons,List.mapM_cons,same a (List.mem_cons_self ..),ih fun b here => same b (List.mem_cons_of_mem _ here)]

theorem length_le_flatMap {u : CompilationUnit} {units : List CompilationUnit} (here : u ∈ units) :
    u.bytes.length ≤ (units.flatMap (·.bytes)).length := by
  obtain ⟨front,back,rfl⟩ := List.append_of_mem here
  rw [List.flatMap_append,List.flatMap_cons,List.length_append,List.length_append]
  omega

-- The units of a section give what each gives by itself, one behind the other,
-- or stop where the first of them does.
theorem units_independent (sections : Sections) (units : List CompilationUnit)
    (wellFormed : ∀ u ∈ units, u.WellFormed sections) (settled : ∀ u ∈ units, Settled false false (attributesOf u.items))
    (small : (units.flatMap (·.bytes)).length < 2^63)
    (enough : sections.debugAbbrev.bytes.length < turns ∧ (units.flatMap (·.bytes)).length < turns) :
    (parseSubprograms turns sections (ofSource (units.flatMap (·.bytes)))).map (·.infos) =
      (units.mapM (alone turns sections)).map List.flatten := by
  have singly : units.mapM (alone turns sections) = units.mapM (found sections) := mapM_same units fun u here => by
    have length := length_le_flatMap here
    exact alone_found (wellFormed u here) (settled u here) (by omega) ⟨enough.1,by omega⟩
  rw [parse_found units wellFormed settled small enough,singly]

end Sequences

section Examples

def exampleDeclarations : List ShortDeclaration := [
  -- a unit with its string offsets base, alone and behind its producer
  ⟨1,0x11,1,[(0x72,0x17),(0x25,0x25)]⟩,
  ⟨2,0x11,1,[(0x25,0x25),(0x72,0x17)]⟩,
  -- a subprogram: name, low_pc and high_pc
  ⟨3,0x2e,0,[(0x03,0x25),(0x11,0x01),(0x12,0x06)]⟩]

-- One header of 8 bytes and the offsets of the strings "cc" and "f".
def exampleSections : Sections where
  debugInfo := ⟨0,[]⟩
  debugAbbrev := ⟨0,exampleDeclarations.flatMap (·.bytes) ++ [0]⟩
  debugLine := ⟨0,[]⟩
  debugStr := ⟨0,[0x63,0x63,0,0x66,0]⟩
  debugLineStr := ⟨0,[]⟩
  debugStrOffsets := ⟨0,[12,0,0,0,5,0,0,0,0,0,0,0,3,0,0,0]⟩
  debugAddr := ⟨0,[]⟩
  debugStrOffsetsBase := 0
  debugAddrBase := 0

def baseAttribute : Attribute := fixedAttribute 0x72 0x17 .unsigned [8,0,0,0]
def producerAttribute : Attribute := fixedAttribute 0x25 0x25 .textIndex [0]

def exampleSubprogram : Entry := ⟨3,[3],.subprogram,false,[fixedAttribute 0x03 0x25 .textIndex [1],
  fixedAttribute 0x11 0x01 .address [0,0x10,0,0,0,0,0,0],fixedAttribute 0x12 0x06 .unsigned [0x20,0,0,0]]⟩

def exampleUnit (root : Entry) : CompilationUnit where
  type := 1
  addressSize := 8
  abbreviationOffset := 0
  declarations := exampleDeclarations.map (·.declaration)
  items := [.entry root,.entry exampleSubprogram,.null [0]]

-- The base first, and the producer first.
def baseFirst : CompilationUnit := exampleUnit ⟨1,[1],.compileUnit,true,[baseAttribute,producerAttribute]⟩
def producerFirst : CompilationUnit := exampleUnit ⟨2,[2],.compileUnit,true,[producerAttribute,baseAttribute]⟩

theorem example_declared (u : CompilationUnit) (declarations : u.declarations = exampleDeclarations.map (·.declaration))
    (offset : u.abbreviationOffset = 0) : ∃ front table rest, exampleSections.debugAbbrev.bytes = front ++ (table ++ rest) ∧
      front.length = u.abbreviationOffset ∧ EncodedTable u.declarations table := by
  refine ⟨[],exampleSections.debugAbbrev.bytes,[],by rw [List.append_nil,List.nil_append],offset.symm,?_⟩
  rw [declarations]
  exact table_encoded exampleDeclarations (by decide)

theorem baseAttribute_encoded : Encoded 8 baseAttribute.spec.form baseAttribute.content baseAttribute.bytes := .fixed rfl rfl
theorem producerAttribute_encoded :
    Encoded 8 producerAttribute.spec.form producerAttribute.content producerAttribute.bytes := .fixed rfl rfl

theorem exampleSubprogram_encoded :
    exampleSubprogram.Encoded 8 (exampleDeclarations.map (·.declaration)).reverse where
  code := ⟨rfl,by decide,rfl,by decide⟩
  used := by decide
  declared := by decide
  attributes := by
    intro a here
    simp only [exampleSubprogram,List.mem_cons,List.not_mem_nil,or_false] at here
    rcases here with rfl | rfl | rfl
    · exact .fixed rfl rfl
    · exact .fixed rfl rfl
    · exact .fixed rfl rfl

theorem example_wellFormed (root : Entry) (encoded : root.Encoded 8 (exampleDeclarations.map (·.declaration)).reverse)
    (children : root.hasChildren = true) (short : root.bytes.length = 6) : (exampleUnit root).WellFormed exampleSections where
  addressSize := .inr rfl
  length := by
    rw [CompilationUnit.length,bytesOfItems,exampleUnit]
    simp only [List.flatMap_cons,List.flatMap_nil,Item.bytes,List.length_append,short]
    decide
  offset := show 0 < 2^32 by decide
  declared := example_declared _ rfl rfl
  encoded := by
    intro item here
    simp only [exampleUnit,List.mem_cons,List.not_mem_nil,or_false] at here
    rcases here with rfl | rfl | rfl
    · exact encoded
    · exact exampleSubprogram_encoded
    · exact unsigned_zero
  nested := by
    simp only [exampleUnit,Nested,children]
    trivial

theorem baseFirst_wellFormed : baseFirst.WellFormed exampleSections := by
  refine example_wellFormed _ ⟨⟨rfl,by decide,rfl,by decide⟩,by decide,by decide,?_⟩ rfl rfl
  intro a here
  simp only [List.mem_cons,List.not_mem_nil,or_false] at here
  rcases here with rfl | rfl
  · exact baseAttribute_encoded
  · exact producerAttribute_encoded

theorem producerFirst_wellFormed : producerFirst.WellFormed exampleSections := by
  refine example_wellFormed _ ⟨⟨rfl,by decide,rfl,by decide⟩,by decide,by decide,?_⟩ rfl rfl
  intro a here
  simp only [List.mem_cons,List.not_mem_nil,or_false] at here
  rcases here with rfl | rfl
  · exact producerAttribute_encoded
  · exact baseAttribute_encoded

theorem baseFirst_settled : Settled false false (attributesOf baseFirst.items) := by
  simp [Settled,attributesOf,baseFirst,exampleUnit,exampleSubprogram,baseAttribute,producerAttribute,fixedAttribute,
    castAttributeType]

theorem units_independent_twice :
    (parseSubprograms 200 exampleSections (ofSource ([baseFirst,baseFirst].flatMap (·.bytes)))).map (·.infos) =
      ([baseFirst,baseFirst].mapM (alone 200 exampleSections)).map List.flatten := by
  have only : ∀ u ∈ [baseFirst,baseFirst], u = baseFirst := by decide
  exact units_independent exampleSections [baseFirst,baseFirst]
    (fun u here => by rw [only u here]; exact baseFirst_wellFormed)
    (fun u here => by rw [only u here]; exact baseFirst_settled) (by decide) (by decide)

-- The unit with its producer first stops by itself, and not behind the other.
theorem units_dependent : ¬ ∀ (sections : Sections) (units : List CompilationUnit) (turns : Nat),
    (∀ u ∈ units, u.WellFormed sections) →
    sections.debugAbbrev.bytes.length < turns ∧ (units.flatMap (·.bytes)).length < turns →
    (parseSubprograms turns sections (ofSource (units.flatMap (·.bytes)))).map (·.infos) =
      (units.mapM (alone turns sections)).map List.flatten := by
  intro every
  have wellFormed : ∀ u ∈ [baseFirst,producerFirst], u.WellFormed exampleSections := by
    intro u here
    simp only [List.mem_cons,List.not_mem_nil,or_false] at here
    rcases here with rfl | rfl
    · exact baseFirst_wellFormed
    · exact producerFirst_wellFormed
  have same := every exampleSections [baseFirst,producerFirst] 200 wellFormed (by decide)
  have stops : alone 200 exampleSections producerFirst = .error (.asserted "dwarf: section offset out of range") := by
    decide
  have goes : (parseSubprograms 200 exampleSections (ofSource ([baseFirst,producerFirst].flatMap (·.bytes)))).map (·.infos) =
      .ok [⟨[0x66],0x1000,0x1020⟩,⟨[0x66],0x1000,0x1020⟩] := by decide
  have first : alone 200 exampleSections baseFirst = .ok [⟨[0x66],0x1000,0x1020⟩] := by decide
  rw [goes,List.mapM_cons,List.mapM_cons,first,stops] at same
  cases same

end Examples

end DwarfUnits
