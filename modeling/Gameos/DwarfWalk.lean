import Gameos.DwarfEncoding

-- Debugging information entries as they lie in a unit, and the walk over them.
namespace DwarfWalk
open MachineWords ByteReader BoundedLoops Dwarf LineProgram DwarfEncoding

structure Attribute where
  spec : AttributeSpec
  content : Content
  bytes : List UInt8
deriving DecidableEq, Repr

structure Entry where
  code : Nat
  codeBytes : List UInt8
  tag : Tag
  hasChildren : Bool
  attributes : List Attribute
deriving DecidableEq, Repr

def Entry.declaration (e : Entry) : Abbreviation := ⟨e.tag,e.hasChildren,e.attributes.map (·.spec)⟩
def Entry.bytes (e : Entry) : List UInt8 := e.codeBytes ++ e.attributes.flatMap (·.bytes)

structure Entry.Encoded (addressSize : Nat) (abbreviations : Abbreviations) (e : Entry) : Prop where
  code : Unsigned e.code e.codeBytes
  used : e.code ≠ 0
  declared : abbreviations.find e.code = some e.declaration
  attributes : ∀ a ∈ e.attributes, DwarfEncoding.Encoded addressSize a.spec.form a.content a.bytes

-- A unit is its entries, the children of one behind it and closed by a null entry.
inductive Item where
  | entry (e : Entry)
  | null (bytes : List UInt8)
deriving DecidableEq, Repr

def Item.bytes : Item → List UInt8
  | .entry e => e.bytes
  | .null bytes => bytes

def Item.Encoded (addressSize : Nat) (abbreviations : Abbreviations) : Item → Prop
  | .entry e => e.Encoded addressSize abbreviations
  | .null bytes => Unsigned 0 bytes

-- Every null entry closes the children of one.
def Nested : Nat → List Item → Prop
  | _, [] => True
  | depth, .entry e :: items => Nested (if e.hasChildren then depth + 1 else depth) items
  | 0, .null _ :: _ => False
  | depth+1, .null _ :: items => Nested depth items

def bytesOfItems (items : List Item) : List UInt8 := items.flatMap (·.bytes)

-- An attribute of a form of fixed width.
def fixedAttribute (type form : Nat) (content : Nat → Content) (bytes : List UInt8) : Attribute :=
  ⟨⟨castAttributeType type,castForm form,0⟩,content (littleEndian bytes),bytes⟩

section Contents
variable {context : UnitContext}

-- The attributes of an entry by what they say.
def readContents (context : UnitContext) (tag : Tag) :
    List Attribute → EntryState → UnitState → Except Failure (EntryState × UnitState)
  | [], entry, unit => return (entry,unit)
  | a :: attributes, entry, unit => do
      let value ← meaning context.addressSize a.spec.implicitConst unit.sections a.content
      let (entry,unit) ← recordAttribute context tag a.spec value entry unit
      readContents context tag attributes entry unit

-- No record looks into a block.
theorem recordAttribute_plain (tag : Tag) (spec : AttributeSpec) (value : AttributeValue) (entry : EntryState)
    (unit : UnitState) :
    recordAttribute context tag spec (plain value) entry unit = recordAttribute context tag spec value entry unit := by
  cases value with
  | block view => rfl
  | _ => rfl

theorem attributes_read (tag : Tag) (attributes : List Attribute) (entry : EntryState) (unit : UnitState)
    (usable : context.addressSize = 4 ∨ context.addressSize = 8)
    (encoded : ∀ a ∈ attributes, Encoded context.addressSize a.spec.form a.content a.bytes)
    (stands : Stands reader before (attributes.flatMap (·.bytes) ++ after)) :
    readAttributes context tag (attributes.map (·.spec)) entry unit reader =
      (readContents context tag attributes entry unit).map fun (entry,unit) =>
        (entry,unit,reader.advance (attributes.flatMap (·.bytes)).length) := by
  induction attributes generalizing before reader entry unit with
  | nil =>
      rw [List.flatMap_nil,advance_none]
      rfl
  | cons a attributes ih =>
      rw [List.flatMap_cons,List.append_assoc] at stands
      have enough : a.bytes.length < reader.source.length + 1 := by
        rw [stands.source]
        simp only [List.length_append]
        omega
      rw [List.map_cons,readAttributes,readContents,List.flatMap_cons,List.length_append]
      rcases value_cases a.spec.implicitConst unit.sections (encoded a (List.mem_cons_self ..)) usable stands enough with
        ⟨fault,read,same⟩ | ⟨value,read,same⟩
      · rw [read,same]
        rfl
      · rw [read,same,ok_bind,ok_bind,recordAttribute_plain]
        dsimp only
        cases recordAttribute context tag a.spec value entry unit with
        | error fault => rfl
        | ok recorded =>
            obtain ⟨entry',unit'⟩ := recorded
            rw [ok_bind,ok_bind]
            dsimp only
            rw [ih entry' unit' (fun a here => encoded a (List.mem_cons_of_mem _ here)) stands.advance,advance_advance]
            rfl

end Contents

section Walk
variable {context : UnitContext}

-- The walk by what the entries say.
def walkItems (context : UnitContext) : Nat → List Item → UnitState → Except Failure UnitState
  | _, [], unit => return unit
  | offset, .entry e :: items, unit => do
      let (entry,unit) ← readContents context e.tag e.attributes .init unit
      walkItems context (offset + e.bytes.length) items (recordEntry e.declaration offset entry unit)
  | offset, .null bytes :: items, unit =>
      walkItems context (offset + bytes.length) items {unit with scopeStack := unit.scopeStack.tail}

theorem readContents_contents (attributes : List Attribute)
    (taken : readContents context tag attributes entry unit = .ok (entry',unit')) :
    contents unit'.sections = contents unit.sections := by
  induction attributes generalizing entry unit with
  | nil =>
      cases taken
      rfl
  | cons a attributes ih =>
      obtain ⟨value,_,taken⟩ := ok_of_bind taken
      obtain ⟨⟨entry'',unit''⟩,recorded,taken⟩ := ok_of_bind taken
      exact (ih taken).trans (recordAttribute_contents recorded)

theorem walkItems_contents (items : List Item) (walked : walkItems context offset items unit = .ok unit') :
    contents unit'.sections = contents unit.sections := by
  induction items generalizing offset unit with
  | nil =>
      cases walked
      rfl
  | cons item items ih =>
      cases item with
      | entry e =>
          obtain ⟨⟨entry,unit''⟩,taken,walked⟩ := ok_of_bind walked
          have rest := ih walked
          rw [recordEntry_sections] at rest
          exact rest.trans (readContents_contents e.attributes taken)
      | null closing =>
          rw [walkItems] at walked
          have rest := ih walked
          exact rest

theorem entry_turn (unit : UnitState) (encoded : Entry.Encoded context.addressSize context.abbreviations e)
    (usable : context.addressSize = 4 ∨ context.addressSize = 8) (stands : Stands reader before (e.bytes ++ after))
    (left : before.length < context.unitEnd) (small : before.length < 2^64) :
    entryTurn context (unit,reader) = (readContents context e.tag e.attributes .init unit).map fun (entry,unit) =>
      .again (recordEntry e.declaration before.length entry unit,reader.advance e.bytes.length) := by
  have offset : toU64 reader.currentOffset = before.length := by rw [stands.offset,toU64_nat _ small]
  rw [Entry.bytes,List.append_assoc] at stands
  have read := read_unsigned encoded.code stands
  have attributes := attributes_read e.tag e.attributes .init unit usable encoded.attributes stands.advance
  rw [entryTurn]
  dsimp only
  rw [if_neg (by omega),read,asserted_ok,ok_bind]
  dsimp only
  rw [if_neg encoded.used,encoded.declared]
  dsimp only [Entry.declaration]
  rw [attributes]
  cases readContents context e.tag e.attributes .init unit with
  | error fault => rfl
  | ok recorded =>
      obtain ⟨entry,unit'⟩ := recorded
      rw [Entry.bytes,List.length_append,Int.natCast_add,← advance_advance,← offset]
      rfl

theorem null_turn (encoded : Unsigned 0 bytes) (stands : Stands reader before (bytes ++ after))
    (left : before.length < context.unitEnd) (small : before.length < 2^64) (inner : unit.scopeStack = scope :: scopeStack) :
    entryTurn context (unit,reader) = .ok (.again ({unit with scopeStack := scopeStack},reader.advance bytes.length)) := by
  have offset : toU64 reader.currentOffset = before.length := by rw [stands.offset,toU64_nat _ small]
  have read := read_unsigned encoded stands
  rw [entryTurn]
  dsimp only
  rw [if_neg (by omega),read,asserted_ok,ok_bind]
  dsimp only
  rw [if_pos rfl,inner]
  rfl

theorem recordEntry_scope (declaration : Abbreviation) (offset : Nat) (entry : EntryState) (unit : UnitState) :
    (recordEntry declaration offset entry unit).scopeStack =
      if declaration.hasChildren then true :: unit.scopeStack else unit.scopeStack := by
  unfold recordEntry
  dsimp only
  split_ifs <;> rfl

theorem recordUnit_scope (recorded : recordUnit tag spec value unit = .ok unit') : unit'.scopeStack = unit.scopeStack := by
  unfold recordUnit at recorded
  split at recorded
  all_goals try
    split at recorded
    · cases recorded
    · split at recorded
      · cases recorded
      · obtain ⟨number,_,recorded⟩ := ok_of_bind recorded
        cases recorded
        rfl
  cases recorded
  rfl

theorem readContents_scope (attributes : List Attribute)
    (taken : readContents context tag attributes entry unit = .ok (entry',unit')) : unit'.scopeStack = unit.scopeStack := by
  induction attributes generalizing entry unit with
  | nil =>
      cases taken
      rfl
  | cons a attributes ih =>
      obtain ⟨value,_,taken⟩ := ok_of_bind taken
      obtain ⟨⟨entry'',unit''⟩,recorded,taken⟩ := ok_of_bind taken
      obtain ⟨lastEntry,_,recorded⟩ := ok_of_bind recorded
      obtain ⟨lastUnit,same,recorded⟩ := ok_of_bind recorded
      cases recorded
      exact (ih taken).trans (recordUnit_scope same)

theorem item_positive (encoded : Item.Encoded addressSize abbreviations item) : 0 < item.bytes.length := by
  cases item with
  | entry e =>
      have positive := terminated_length encoded.code.whole
      rw [Item.bytes,Entry.bytes,List.length_append]
      omega
  | null bytes => exact terminated_length encoded.whole

theorem items_short {items : List Item} (encoded : ∀ item ∈ items, Item.Encoded addressSize abbreviations item) :
    items.length ≤ (bytesOfItems items).length := by
  induction items with
  | nil => exact Nat.zero_le _
  | cons item items ih =>
      have positive := item_positive (encoded item (List.mem_cons_self ..))
      have rest := ih fun other here => encoded other (List.mem_cons_of_mem _ here)
      rw [bytesOfItems,List.flatMap_cons,List.length_append,List.length_cons]
      rw [bytesOfItems] at rest
      omega

-- One item of the walk, as one turn of the loop takes it.
def walkItem (context : UnitContext) (offset : Nat) (item : Item) (unit : UnitState) : Except Failure UnitState :=
  match item with
  | .entry e => (readContents context e.tag e.attributes .init unit).map fun (entry,unit) =>
      recordEntry e.declaration offset entry unit
  | .null _ => .ok {unit with scopeStack := unit.scopeStack.tail}

theorem walkItems_cons (offset : Nat) (item : Item) (items : List Item) (unit : UnitState) :
    walkItems context offset (item :: items) unit =
      (walkItem context offset item unit >>= walkItems context (offset + item.bytes.length) items) := by
  cases item with
  | entry e =>
      rw [walkItems,walkItem]
      cases readContents context e.tag e.attributes .init unit with
      | error fault => rfl
      | ok recorded => rfl
  | null closing => rfl

theorem item_turn {item : Item} {items : List Item} {unit : UnitState}
    (encoded : Item.Encoded context.addressSize context.abbreviations item)
    (nested : Nested unit.scopeStack.length (item :: items)) (usable : context.addressSize = 4 ∨ context.addressSize = 8)
    (stands : Stands reader before (item.bytes ++ after)) (left : before.length < context.unitEnd)
    (small : before.length < 2^64) :
    entryTurn context (unit,reader) = (walkItem context before.length item unit).map (fun unit =>
      .again (unit,reader.advance item.bytes.length)) ∧
    ∀ unit', walkItem context before.length item unit = .ok unit' → Nested unit'.scopeStack.length items := by
  cases item with
  | entry e =>
      have turned := entry_turn unit encoded usable stands left small
      rw [turned,walkItem]
      cases taken : readContents context e.tag e.attributes .init unit with
      | error fault => exact ⟨rfl,fun unit' walked => nomatch walked⟩
      | ok recorded =>
          obtain ⟨entry,unit''⟩ := recorded
          refine ⟨rfl,?_⟩
          intro unit' walked
          cases walked
          rw [recordEntry_scope,readContents_scope _ taken]
          have same : e.declaration.hasChildren = e.hasChildren := rfl
          rw [Nested] at nested
          rw [same]
          cases hasChildren : e.hasChildren with
          | true => simpa [hasChildren] using nested
          | false => simpa [hasChildren] using nested
  | null closing =>
      cases inner : unit.scopeStack with
      | nil =>
          rw [inner] at nested
          cases nested
      | cons scope scopeStack =>
          have turned := null_turn encoded stands left small inner
          rw [inner] at nested
          refine ⟨?_,?_⟩
          · rw [turned,walkItem,inner]
            rfl
          · intro unit' walked
            rw [walkItem,inner] at walked
            cases walked
            exact nested

theorem last_turn (stands : Stands reader before after) (ends : context.unitEnd = before.length)
    (small : context.unitEnd < 2^64) (unit : UnitState) : entryTurn context (unit,reader) = .ok (.done (unit,reader)) := by
  have offset : toU64 reader.currentOffset = before.length := by rw [stands.offset,toU64_nat _ (by omega)]
  rw [entryTurn]
  dsimp only
  rw [if_pos (by rw [offset,ends])]
  rfl

-- The walk over a unit is the walk over what its entries say, wherever they lie.
theorem walk_items (items : List Item) (turns : Nat) (unit : UnitState)
    (encoded : ∀ item ∈ items, Item.Encoded context.addressSize context.abbreviations item)
    (nested : Nested unit.scopeStack.length items) (usable : context.addressSize = 4 ∨ context.addressSize = 8)
    (stands : Stands reader before (bytesOfItems items ++ after))
    (ends : context.unitEnd = before.length + (bytesOfItems items).length) (small : context.unitEnd < 2^64)
    (enough : items.length < turns) :
    loop .outOfSteps (entryTurn context) turns (unit,reader) = (walkItems context before.length items unit).map fun unit =>
      (unit,reader.advance (bytesOfItems items).length) := by
  obtain ⟨turns,rfl⟩ : ∃ more, turns = more + 1 := ⟨turns-1,by omega⟩
  induction items generalizing before reader unit turns with
  | nil =>
      rw [loop_done (last_turn stands ends small unit),bytesOfItems,List.flatMap_nil,advance_none]
      rfl
  | cons item items ih =>
      have positive := item_positive (encoded item (List.mem_cons_self ..))
      have rest : ∀ other ∈ items, Item.Encoded context.addressSize context.abbreviations other :=
        fun other here => encoded other (List.mem_cons_of_mem _ here)
      have bytes : bytesOfItems (item :: items) = item.bytes ++ bytesOfItems items := List.flatMap_cons ..
      rw [bytes,List.append_assoc] at stands
      rw [bytes,List.length_append] at ends
      have ends' : context.unitEnd = (before ++ item.bytes).length + (bytesOfItems items).length := by
        rw [List.length_append]
        omega
      rw [List.length_cons] at enough
      obtain ⟨turns,rfl⟩ : ∃ more, turns = more + 1 := ⟨turns-1,by omega⟩
      obtain ⟨turned,inner⟩ := item_turn (encoded item (List.mem_cons_self ..)) nested usable stands (by omega) (by omega)
      rw [bytes,List.length_append,Int.natCast_add,← advance_advance,walkItems_cons]
      cases walked : walkItem context before.length item unit with
      | error fault =>
          rw [walked] at turned
          rw [loop_error turned]
          rfl
      | ok unit' =>
          rw [walked] at turned
          have after := ih unit' rest (inner unit' walked) stands.advance ends' turns (by omega)
          rw [List.length_append] at after
          rw [loop_again turned,after,ok_bind]

-- The offsets at which the items lie, and where the last one ends.
def visits (offset : Nat) : List Item → List Int
  | [] => [offset]
  | item :: items => offset :: visits (offset + item.bytes.length) items

-- Each item has one turn, in the order in which they lie, unless the walk stops.
theorem items_visited (items : List Item) (turns : Nat) (unit : UnitState)
    (encoded : ∀ item ∈ items, Item.Encoded context.addressSize context.abbreviations item)
    (nested : Nested unit.scopeStack.length items) (usable : context.addressSize = 4 ∨ context.addressSize = 8)
    (stands : Stands reader before (bytesOfItems items ++ after))
    (ends : context.unitEnd = before.length + (bytesOfItems items).length) (small : context.unitEnd < 2^64)
    (enough : items.length < turns) (walked : walkItems context before.length items unit = .ok unit') :
    (trail (entryTurn context) turns (unit,reader)).map (fun state => state.2.currentOffset) =
      visits before.length items := by
  obtain ⟨turns,rfl⟩ : ∃ more, turns = more + 1 := ⟨turns-1,by omega⟩
  induction items generalizing before reader unit turns with
  | nil =>
      rw [trail_done (last_turn stands ends small unit),visits,← stands.offset]
      rfl
  | cons item items ih =>
      have positive := item_positive (encoded item (List.mem_cons_self ..))
      have rest : ∀ other ∈ items, Item.Encoded context.addressSize context.abbreviations other :=
        fun other here => encoded other (List.mem_cons_of_mem _ here)
      have bytes : bytesOfItems (item :: items) = item.bytes ++ bytesOfItems items := List.flatMap_cons ..
      rw [bytes,List.append_assoc] at stands
      rw [bytes,List.length_append] at ends
      have ends' : context.unitEnd = (before ++ item.bytes).length + (bytesOfItems items).length := by
        rw [List.length_append]
        omega
      rw [List.length_cons] at enough
      obtain ⟨turns,rfl⟩ : ∃ more, turns = more + 1 := ⟨turns-1,by omega⟩
      obtain ⟨turned,inner⟩ := item_turn (encoded item (List.mem_cons_self ..)) nested usable stands (by omega) (by omega)
      rw [walkItems_cons] at walked
      obtain ⟨unit'',taken,walked⟩ := ok_of_bind walked
      rw [taken] at turned
      rw [← List.length_append] at walked
      have after := ih unit'' rest (inner unit'' taken) stands.advance ends' walked turns (by omega)
      rw [List.length_append] at after
      rw [trail_again turned,List.map_cons,after,visits,← stands.offset]

end Walk

end DwarfWalk
