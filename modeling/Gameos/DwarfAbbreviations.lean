import Mathlib.Data.List.Nodup
import Gameos.DwarfEncoding

-- The bytes of an abbreviations table, and what is parsed from them.
namespace DwarfAbbreviations
open MachineWords ByteReader BoundedLoops Dwarf LineProgram DwarfEncoding

inductive EncodedSpecs : List AttributeSpec → List UInt8 → Prop where
  | nil : Unsigned 0 typeBytes → Unsigned 0 formBytes → EncodedSpecs [] (typeBytes ++ formBytes)
  | cons : Unsigned type typeBytes → Unsigned form formBytes → ¬ (type = 0 ∧ form = 0) →
      castForm form ≠ .implicitConst → EncodedSpecs specs rest →
      EncodedSpecs (⟨castAttributeType type,castForm form,0⟩ :: specs) (typeBytes ++ (formBytes ++ rest))
  | constant : Unsigned type typeBytes → Unsigned form formBytes → castForm form = .implicitConst →
      Signed value valueBytes → EncodedSpecs specs rest →
      EncodedSpecs (⟨castAttributeType type,castForm form,value⟩ :: specs)
        (typeBytes ++ (formBytes ++ (valueBytes ++ rest)))

inductive EncodedTable : List (Nat × Abbreviation) → List UInt8 → Prop where
  | nil : Unsigned 0 codeBytes → EncodedTable [] codeBytes
  | cons : Unsigned code codeBytes → code ≠ 0 → Unsigned tag tagBytes → EncodedSpecs specs specsBytes →
      EncodedTable declarations rest →
      EncodedTable ((code,⟨castTag tag,hasChildren != 0,specs⟩) :: declarations)
        (codeBytes ++ (tagBytes ++ (hasChildren :: (specsBytes ++ rest))))

section Turns
variable {reader : ByteReader} {before after typeBytes formBytes valueBytes codeBytes tagBytes : List UInt8}

theorem spec_done (found : List AttributeSpec) (type : Unsigned 0 typeBytes) (form : Unsigned 0 formBytes)
    (stands : Stands reader before (typeBytes ++ (formBytes ++ after))) :
    attributeSpecTurn (found,reader) = .ok (.done (found,reader.advance (typeBytes ++ formBytes).length)) := by
  rw [attributeSpecTurn]
  dsimp only
  rw [read_unsigned type stands,asserted_ok,ok_bind]
  dsimp only
  rw [read_unsigned form stands.advance,asserted_ok,ok_bind,advance_advance,List.length_append]
  rfl

theorem spec_again (found : List AttributeSpec) (type : Unsigned t typeBytes) (form : Unsigned f formBytes)
    (some : ¬ (t = 0 ∧ f = 0)) (notConstant : castForm f ≠ .implicitConst)
    (stands : Stands reader before (typeBytes ++ (formBytes ++ after))) :
    attributeSpecTurn (found,reader) = .ok (.again (found ++ [⟨castAttributeType t,castForm f,0⟩],
      reader.advance (typeBytes ++ formBytes).length)) := by
  rw [attributeSpecTurn]
  dsimp only
  rw [read_unsigned type stands,asserted_ok,ok_bind]
  dsimp only
  rw [read_unsigned form stands.advance,asserted_ok,ok_bind]
  dsimp only
  rw [if_neg some,if_neg notConstant,advance_advance,List.length_append]
  rfl

theorem spec_constant (found : List AttributeSpec) (type : Unsigned t typeBytes) (form : Unsigned f formBytes)
    (constant : castForm f = .implicitConst) (value : Signed v valueBytes)
    (stands : Stands reader before (typeBytes ++ (formBytes ++ (valueBytes ++ after)))) :
    attributeSpecTurn (found,reader) = .ok (.again (found ++ [⟨castAttributeType t,castForm f,v⟩],
      reader.advance (typeBytes ++ (formBytes ++ valueBytes)).length)) := by
  have some : ¬ (t = 0 ∧ f = 0) := by
    rintro ⟨_,rfl⟩
    cases constant
  rw [attributeSpecTurn]
  dsimp only
  rw [read_unsigned type stands,asserted_ok,ok_bind]
  dsimp only
  rw [read_unsigned form stands.advance,asserted_ok,ok_bind]
  dsimp only
  rw [if_neg some,if_pos constant,read_signed value stands.advance.advance,asserted_ok,ok_bind,advance_advance,
    advance_advance]
  simp only [List.length_append,Int.natCast_add]
  rfl

theorem specs_parsed (encoded : EncodedSpecs specs bytes) (found : List AttributeSpec)
    (stands : Stands reader before (bytes ++ after)) (turns : Nat) (enough : bytes.length ≤ turns) :
    loop .outOfSteps attributeSpecTurn (turns+1) (found,reader) = .ok (found ++ specs,reader.advance bytes.length) := by
  induction encoded generalizing found reader before turns with
  | nil type form =>
      rw [List.append_assoc] at stands
      rw [loop_done (spec_done found type form stands),List.append_nil]
  | @cons _ typeBytes _ formBytes specs rest type form some notConstant _ ih =>
      simp only [List.append_assoc] at stands
      simp only [List.length_append] at enough
      have positive := terminated_length type.whole
      obtain ⟨turns,rfl⟩ : ∃ more, turns = more + 1 := ⟨turns-1,by omega⟩
      have stands' : Stands reader before ((typeBytes ++ formBytes) ++ (rest ++ after)) := by
        rwa [List.append_assoc]
      rw [loop_again (spec_again found type form some notConstant stands),ih _ stands'.advance turns (by omega),
        advance_advance,List.append_assoc]
      simp only [List.length_append,Int.natCast_add,Int.add_assoc]
      rfl
  | @constant _ typeBytes _ formBytes _ valueBytes specs rest type form constant value _ ih =>
      simp only [List.append_assoc] at stands
      simp only [List.length_append] at enough
      have positive := terminated_length type.whole
      obtain ⟨turns,rfl⟩ : ∃ more, turns = more + 1 := ⟨turns-1,by omega⟩
      have stands' : Stands reader before ((typeBytes ++ (formBytes ++ valueBytes)) ++ (rest ++ after)) := by
        simpa only [List.append_assoc] using stands
      rw [loop_again (spec_constant found type form constant value stands),ih _ stands'.advance turns (by omega),
        advance_advance,List.append_assoc]
      simp only [List.length_append,Int.natCast_add,Int.add_assoc]
      rfl

theorem table_done (found : Abbreviations) (code : Unsigned 0 codeBytes) (stands : Stands reader before (codeBytes ++ after))
    (turns : Nat) : abbreviationTurn turns (found,reader) = .ok (.done (found,reader.advance codeBytes.length)) := by
  rw [abbreviationTurn]
  dsimp only
  rw [read_unsigned code stands,asserted_ok,ok_bind]
  rfl

theorem table_again (found : Abbreviations) (code : Unsigned c codeBytes) (used : c ≠ 0) (tag : Unsigned t tagBytes)
    (specs : EncodedSpecs list specsBytes) (hasChildren : UInt8)
    (stands : Stands reader before (codeBytes ++ (tagBytes ++ (hasChildren :: (specsBytes ++ after)))))
    (enough : specsBytes.length < turns) :
    abbreviationTurn turns (found,reader) = .ok (.again (found.set c ⟨castTag t,hasChildren != 0,list⟩,
      reader.advance (codeBytes ++ (tagBytes ++ (hasChildren :: specsBytes))).length)) := by
  obtain ⟨turns,rfl⟩ : ∃ more, turns = more + 1 := ⟨turns-1,by omega⟩
  have children := stands.advance.advance
  have parsed := specs_parsed specs [] children.advance_one turns (by omega)
  rw [abbreviationTurn]
  dsimp only
  rw [read_unsigned code stands,asserted_ok,ok_bind]
  dsimp only
  rw [if_neg used,read_unsigned tag stands.advance,asserted_ok,ok_bind]
  dsimp only
  rw [children.readBool,asserted_ok,ok_bind]
  dsimp only
  rw [parseAttributeSpecs,parsed,ok_bind]
  simp only [advance_advance,List.length_append,List.length_cons,Int.natCast_add,Int.add_assoc,List.nil_append]
  rw [Int.add_comm 1]
  rfl

theorem table_parsed {inner : Nat} (encoded : EncodedTable declarations bytes) (found : Abbreviations)
    (stands : Stands reader before (bytes ++ after)) (turns : Nat) (enough : bytes.length ≤ turns)
    (deep : bytes.length < inner) :
    loop .outOfSteps (abbreviationTurn inner) (turns+1) (found,reader) =
      .ok (declarations.reverse ++ found,reader.advance bytes.length) := by
  induction encoded generalizing found reader before turns with
  | nil code => rw [loop_done (table_done found code stands inner),List.reverse_nil,List.nil_append]
  | @cons code codeBytes tag tagBytes specs specsBytes declarations rest hasChildren wellFormed used named listed _ ih =>
      have positive := terminated_length wellFormed.whole
      simp only [List.append_assoc,List.cons_append] at stands
      simp only [List.length_append,List.length_cons] at enough deep
      obtain ⟨turns,rfl⟩ : ∃ more, turns = more + 1 := ⟨turns-1,by omega⟩
      have turned := table_again found wellFormed used named listed hasChildren stands (show specsBytes.length < inner by omega)
      have stands' : Stands reader before ((codeBytes ++ (tagBytes ++ (hasChildren :: specsBytes))) ++ (rest ++ after)) := by
        simpa only [List.append_assoc,List.cons_append] using stands
      rw [loop_again turned,ih _ stands'.advance turns (by omega) (by omega),advance_advance,List.reverse_cons,
        List.append_assoc]
      simp only [List.length_append,List.length_cons,Int.natCast_add,Int.add_assoc]
      rw [Int.add_comm _ (1 : Nat)]
      rfl

-- A table that is well formed is parsed to its declarations.
theorem abbreviations_parsed (encoded : EncodedTable declarations bytes) (stands : Stands reader before (bytes ++ after))
    (enough : bytes.length < turns) :
    parseAbbreviations turns reader = .ok (declarations.reverse,reader.advance bytes.length) := by
  obtain ⟨turns,rfl⟩ : ∃ more, turns = more + 1 := ⟨turns-1,by omega⟩
  have parsed := table_parsed encoded [] stands turns (by omega) enough
  rwa [List.append_nil] at parsed

theorem find_declared {declarations : List (Nat × Abbreviation)} (unique : (declarations.map (·.1)).Nodup)
    (declared : (code,declaration) ∈ declarations) : Table.find declarations.reverse code = some declaration := by
  refine Table.find_of_unique ?_ (List.mem_reverse.mpr declared)
  rw [List.map_reverse]
  exact List.nodup_reverse.mpr unique

end Turns

-- Declarations of which every number takes one byte.
structure ShortDeclaration where
  code : UInt8
  tag : UInt8
  hasChildren : UInt8
  specs : List (UInt8 × UInt8)
deriving DecidableEq, Repr

namespace ShortDeclaration

def spec (pair : UInt8 × UInt8) : AttributeSpec := ⟨castAttributeType pair.1.toNat,castForm pair.2.toNat,0⟩

def declaration (d : ShortDeclaration) : Nat × Abbreviation :=
  (d.code.toNat,⟨castTag d.tag.toNat,d.hasChildren != 0,d.specs.map spec⟩)

def specsBytes (specs : List (UInt8 × UInt8)) : List UInt8 := specs.flatMap (fun pair => [pair.1,pair.2]) ++ [0,0]

def bytes (d : ShortDeclaration) : List UInt8 := d.code :: d.tag :: d.hasChildren :: specsBytes d.specs

def ShortSpec (pair : UInt8 × UInt8) : Prop :=
  pair.1.toNat < 128 ∧ pair.2.toNat < 128 ∧ pair.1.toNat ≠ 0 ∧ castForm pair.2.toNat ≠ .implicitConst

instance : DecidablePred ShortSpec := fun _ => inferInstanceAs (Decidable (_ ∧ _))

def Short (d : ShortDeclaration) : Prop :=
  d.code.toNat ≠ 0 ∧ d.code.toNat < 128 ∧ d.tag.toNat < 128 ∧ ∀ pair ∈ d.specs, ShortSpec pair

instance : DecidablePred Short := fun d =>
  have : Decidable (∀ pair ∈ d.specs, ShortSpec pair) := List.decidableBAll _ _
  inferInstanceAs (Decidable (_ ∧ _))

end ShortDeclaration

open ShortDeclaration

theorem unsigned_byte {byte : UInt8} (small : byte.toNat < 128) : Unsigned byte.toNat [byte] := by
  refine ⟨by simpa [Leb128.terminated] using small,by simp,?_,by omega⟩
  rw [Leb128.unsignedValue,Leb128.unsignedValue]
  omega

theorem unsigned_zero : Unsigned 0 [0] := ⟨rfl,by decide,rfl,by decide⟩

theorem specs_encoded (specs : List (UInt8 × UInt8)) (small : ∀ pair ∈ specs, ShortSpec pair) :
    EncodedSpecs (specs.map spec) (specsBytes specs) := by
  induction specs with
  | nil =>
      have closed := EncodedSpecs.nil unsigned_zero unsigned_zero
      exact closed
  | cons pair specs ih =>
      obtain ⟨type,form,some,notConstant⟩ := small pair (List.mem_cons_self ..)
      exact .cons (unsigned_byte type) (unsigned_byte form) (fun both => some both.1) notConstant
        (ih fun other here => small other (List.mem_cons_of_mem _ here))

theorem table_encoded (declarations : List ShortDeclaration) (small : ∀ d ∈ declarations, d.Short) :
    EncodedTable (declarations.map (·.declaration)) (declarations.flatMap (·.bytes) ++ [0]) := by
  induction declarations with
  | nil => exact .nil unsigned_zero
  | cons d declarations ih =>
      obtain ⟨used,code,tag,specs⟩ := small d (List.mem_cons_self ..)
      have rest := ih fun other here => small other (List.mem_cons_of_mem _ here)
      have listed := specs_encoded d.specs specs
      rw [List.flatMap_cons,List.append_assoc]
      exact .cons (unsigned_byte code) used (unsigned_byte tag) listed rest

end DwarfAbbreviations
