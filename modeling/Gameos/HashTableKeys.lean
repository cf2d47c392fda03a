import Gameos.HashTableReservation

-- hash::compute on the key types it supports, beside their operator ==.
namespace HashTable

-- hash = (hash << 16) + (hash << 6) - hash + byte
def sdbmHash (bytes : List UInt8) (hash : UInt32) : UInt32 :=
  bytes.foldl (fun hash byte => (hash <<< 16) + (hash <<< 6) - hash + byte.toUInt32) hash

def hashInit : UInt32 := 0

def fnv1aHash (value hash : UInt64) : UInt64 := (hash ^^^ value) * 0x100000001b3

def fnv1aHashBytes (bytes : List UInt8) : UInt64 :=
  bytes.foldl (fun hash byte => fnv1aHash byte.toUInt64 hash) 0xcbf29ce484222325

-- The bytes of a value in memory.
def bytes32 (bits : UInt32) : List UInt8 := (List.range 4).map fun i => (bits >>> (8*i).toUInt32).toUInt8
def bytes64 (bits : UInt64) : List UInt8 := (List.range 8).map fun i => (bits >>> (8*i).toUInt64).toUInt8

-- sdbm_float_hash, which takes -0 for 0. Nothing calls it.
def sdbmFloatHash32 (data : List UInt32) (hash : UInt32) : UInt32 :=
  data.foldl (fun hash bits => sdbmHash (bytes32 (if bits = 0x80000000 then 0 else bits)) hash) hash

def sdbmFloatHash64 (data : List UInt64) (hash : UInt32) : UInt32 :=
  data.foldl (fun hash bits => sdbmHash (bytes64 (if bits = 0x8000000000000000 then 0 else bits)) hash) hash

-- operator == of the numbers two bit patterns stand for.
def sameFloat32 (a b : UInt32) : Bool :=
  decide (a &&& 0x7fffffff ≤ 0x7f800000) && decide (b &&& 0x7fffffff ≤ 0x7f800000) &&
    (a == b || (a &&& 0x7fffffff == 0 && b &&& 0x7fffffff == 0))

def sameFloat64 (a b : UInt64) : Bool :=
  decide (a &&& 0x7fffffffffffffff ≤ 0x7ff0000000000000) && decide (b &&& 0x7fffffffffffffff ≤ 0x7ff0000000000000) &&
    (a == b || (a &&& 0x7fffffffffffffff == 0 && b &&& 0x7fffffffffffffff == 0))

inductive KeyType where
  | string
  | integral
  | enumeration
  | pointer
  | f32
  | f64
deriving DecidableEq, Repr

-- The values of each key type. An enumerator is its underlying value.
inductive Key (memory : Nat → UInt8) : KeyType → Type where
  | string (data : Nat) (size : Int) : Key memory .string
  | integral (value : Int) : Key memory .integral
  | enumeration (value : Int) : Key memory .enumeration
  | pointer (address : UInt64) : Key memory .pointer
  | f32 (bits : UInt32) : Key memory .f32
  | f64 (bits : UInt64) : Key memory .f64

section Keys
variable {memory : Nat → UInt8} {T : KeyType}

def characters (memory : Nat → UInt8) (data : Nat) (size : Int) : List UInt8 :=
  (List.range size.toNat).map fun i => memory (data+i)

def Key.compute : Key memory T → UInt32
  | .string data size =>
    let hashValue := fnv1aHashBytes (characters memory data size)
    (hashValue ^^^ (hashValue >>> 32)).toUInt32
  | .f32 bits => sdbmHash (bytes32 bits) hashInit
  | .f64 bits => sdbmHash (bytes64 bits) hashInit
  | .enumeration value => (knuthHash (.ofInt value) >>> 32).toUInt32
  | .integral value => (knuthHash (.ofInt value) >>> 32).toUInt32
  | .pointer address => (knuthHash address >>> 32).toUInt32

def Key.equal : Key memory T → Key memory T → Bool
  | .string data size,.string data' size' =>
    if size ≠ size' then false else (List.range size.toNat).all fun i => memory (data+i) == memory (data'+i)
  | .integral value,.integral value' => value == value'
  | .enumeration value,.enumeration value' => value == value'
  | .pointer address,.pointer address' => address == address'
  | .f32 bits,.f32 bits' => sameFloat32 bits bits'
  | .f64 bits,.f64 bits' => sameFloat64 bits bits'

instance : BEq (Key memory T) := ⟨Key.equal⟩

-- Key_Type{}
instance : Inhabited (Key memory T) := ⟨match T with
  | .string => .string 0 0
  | .integral => .integral 0
  | .enumeration => .enumeration 0
  | .pointer => .pointer 0
  | .f32 => .f32 0
  | .f64 => .f64 0⟩

def keyHash : HashFunction (Key memory T) := ⟨Key.compute⟩

-- +0 and -0, which are equal and of different bits.
def OppositeZeros : Key memory T → Key memory T → Prop
  | .f32 a,.f32 b => (a = 0 ∧ b = 0x80000000) ∨ (a = 0x80000000 ∧ b = 0)
  | .f64 a,.f64 b => (a = 0 ∧ b = 0x8000000000000000) ∨ (a = 0x8000000000000000 ∧ b = 0)
  | _,_ => False

end Keys

theorem zero32 {a : UInt32} (zero : a &&& 0x7fffffff = 0) : a = 0 ∨ a = 0x80000000 := by
  have bits := congrArg UInt32.toNat zero
  rw [UInt32.toNat_and] at bits
  have low : a.toNat % 2^31 = 0 := by
    rw [← Nat.and_two_pow_sub_one_eq_mod]
    exact bits
  have size := a.toNat_lt
  rcases (show a.toNat = 0 ∨ a.toNat = 2147483648 by omega) with value | value
  · exact .inl (UInt32.toNat_inj.mp value)
  · exact .inr (UInt32.toNat_inj.mp value)

theorem zero64 {a : UInt64} (zero : a &&& 0x7fffffffffffffff = 0) : a = 0 ∨ a = 0x8000000000000000 := by
  have bits := congrArg UInt64.toNat zero
  rw [UInt64.toNat_and] at bits
  have low : a.toNat % 2^63 = 0 := by
    rw [← Nat.and_two_pow_sub_one_eq_mod]
    exact bits
  have size := a.toNat_lt
  rcases (show a.toNat = 0 ∨ a.toNat = 9223372036854775808 by omega) with value | value
  · exact .inl (UInt64.toNat_inj.mp value)
  · exact .inr (UInt64.toNat_inj.mp value)

-- Equal floats have the same bits, or are zeros.
theorem sameFloat32_cases (same : sameFloat32 a b = true) :
    a = b ∨ (a = 0 ∧ b = 0x80000000) ∨ (a = 0x80000000 ∧ b = 0) := by
  simp only [sameFloat32,Bool.and_eq_true,Bool.or_eq_true,beq_iff_eq] at same
  obtain ⟨_,equal | ⟨first,second⟩⟩ := same
  · exact .inl equal
  · rcases zero32 first with rfl | rfl <;> rcases zero32 second with rfl | rfl <;> simp

theorem sameFloat64_cases (same : sameFloat64 a b = true) :
    a = b ∨ (a = 0 ∧ b = 0x8000000000000000) ∨ (a = 0x8000000000000000 ∧ b = 0) := by
  simp only [sameFloat64,Bool.and_eq_true,Bool.or_eq_true,beq_iff_eq] at same
  obtain ⟨_,equal | ⟨first,second⟩⟩ := same
  · exact .inl equal
  · rcases zero64 first with rfl | rfl <;> rcases zero64 second with rfl | rfl <;> simp

-- The hash beside the one in use does agree with the equality of floats.
theorem sdbmFloatHash_agrees (hash : UInt32) :
    (∀ a b, sameFloat32 a b = true → sdbmFloatHash32 [a] hash = sdbmFloatHash32 [b] hash) ∧
      ∀ a b, sameFloat64 a b = true → sdbmFloatHash64 [a] hash = sdbmFloatHash64 [b] hash := by
  refine ⟨fun a b same => ?_,fun a b same => ?_⟩
  · rcases sameFloat32_cases same with rfl | ⟨rfl,rfl⟩ | ⟨rfl,rfl⟩ <;> rfl
  · rcases sameFloat64_cases same with rfl | ⟨rfl,rfl⟩ | ⟨rfl,rfl⟩ <;> rfl

section Equality
variable {memory : Nat → UInt8} {T : KeyType} {a b k : Key memory T}

theorem opposites32 (bits : UInt32) : ¬((bits = 0 ∧ bits = 0x80000000) ∨ (bits = 0x80000000 ∧ bits = 0)) := by
  rintro (⟨rfl,other⟩ | ⟨rfl,other⟩) <;> exact absurd other (by decide)

theorem opposites64 (bits : UInt64) : ¬((bits = 0 ∧ bits = 0x8000000000000000) ∨ (bits = 0x8000000000000000 ∧ bits = 0)) := by
  rintro (⟨rfl,other⟩ | ⟨rfl,other⟩) <;> exact absurd other (by decide)

theorem characters_equal {data data' : Nat} {size : Int}
    (same : (List.range size.toNat).all (fun i => memory (data+i) == memory (data'+i)) = true) :
    characters memory data size = characters memory data' size := by
  refine List.map_congr_left fun i member => ?_
  exact eq_of_beq (List.all_eq_true.mp same i member)

-- Strings of the same characters, wherever they are, and numbers of the same
-- bits hash alike; zeros of different signs do not.
theorem compute_equal (equal : (a == b) = true) : a.compute = b.compute ↔ ¬OppositeZeros a b := by
  have equal' : Key.equal a b = true := equal
  cases a with
  | string data size =>
      cases b with
      | string data' size' =>
          simp only [Key.equal] at equal'
          split at equal'
          · cases equal'
          · rename_i sizes
            have size_eq : size = size' := Decidable.not_not.mp sizes
            subst size_eq
            simp [Key.compute,characters_equal equal',OppositeZeros]
  | integral value =>
      cases b with
      | integral value' => simp [Key.compute,eq_of_beq (show (value == value') = true from equal'),OppositeZeros]
  | enumeration value =>
      cases b with
      | enumeration value' => simp [Key.compute,eq_of_beq (show (value == value') = true from equal'),OppositeZeros]
  | pointer address =>
      cases b with
      | pointer address' => simp [Key.compute,eq_of_beq (show (address == address') = true from equal'),OppositeZeros]
  | f32 bits =>
      cases b with
      | f32 bits' =>
          have zeros : sdbmHash (bytes32 0) hashInit ≠ sdbmHash (bytes32 0x80000000) hashInit := by decide
          rcases sameFloat32_cases equal' with rfl | ⟨rfl,rfl⟩ | ⟨rfl,rfl⟩
          · exact ⟨fun _ opposite => (opposites32 bits).elim opposite,fun _ => rfl⟩
          · simp [Key.compute,zeros,OppositeZeros]
          · simp [Key.compute,zeros.symm,OppositeZeros]
  | f64 bits =>
      cases b with
      | f64 bits' =>
          have zeros : sdbmHash (bytes64 0) hashInit ≠ sdbmHash (bytes64 0x8000000000000000) hashInit := by decide
          rcases sameFloat64_cases equal' with rfl | ⟨rfl,rfl⟩ | ⟨rfl,rfl⟩
          · exact ⟨fun _ opposite => (opposites64 bits).elim opposite,fun _ => rfl⟩
          · simp [Key.compute,zeros,OppositeZeros]
          · simp [Key.compute,zeros.symm,OppositeZeros]

theorem sameFloat32_trans {a b c : UInt32} (one : sameFloat32 a b = true) (two : sameFloat32 b c = true) :
    sameFloat32 a c = true := by
  simp only [sameFloat32,Bool.and_eq_true,Bool.or_eq_true,beq_iff_eq] at one two ⊢
  refine ⟨⟨one.1.1,two.1.2⟩,?_⟩
  rcases one.2 with rfl | ⟨left,_⟩
  · exact two.2
  rcases two.2 with rfl | ⟨_,right⟩
  · exact one.2
  · exact .inr ⟨left,right⟩

theorem sameFloat64_trans {a b c : UInt64} (one : sameFloat64 a b = true) (two : sameFloat64 b c = true) :
    sameFloat64 a c = true := by
  simp only [sameFloat64,Bool.and_eq_true,Bool.or_eq_true,beq_iff_eq] at one two ⊢
  refine ⟨⟨one.1.1,two.1.2⟩,?_⟩
  rcases one.2 with rfl | ⟨left,_⟩
  · exact two.2
  rcases two.2 with rfl | ⟨_,right⟩
  · exact one.2
  · exact .inr ⟨left,right⟩

theorem equal_trans (one : (k == a) = true) (two : (a == b) = true) : (k == b) = true := by
  have one' : Key.equal k a = true := one
  have two' : Key.equal a b = true := two
  show Key.equal k b = true
  cases a with
  | string data size =>
      cases k with
      | string data' size' =>
          cases b with
          | string data'' size'' =>
              simp only [Key.equal] at one' two' ⊢
              split at one'
              · cases one'
              · split at two'
                · cases two'
                · rename_i first second
                  obtain rfl := Decidable.not_not.mp first
                  obtain rfl := Decidable.not_not.mp second
                  rw [if_neg (not_not_intro rfl),List.all_eq_true]
                  intro i member
                  rw [eq_of_beq (List.all_eq_true.mp one' i member)]
                  exact List.all_eq_true.mp two' i member
  | integral value =>
      cases k with
      | integral => cases b with
        | integral => exact BEq.trans (show (_ == value) = true from one') two'
  | enumeration value =>
      cases k with
      | enumeration => cases b with
        | enumeration => exact BEq.trans (show (_ == value) = true from one') two'
  | pointer address =>
      cases k with
      | pointer => cases b with
        | pointer => exact BEq.trans (show (_ == address) = true from one') two'
  | f32 bits =>
      cases k with
      | f32 => cases b with
        | f32 => exact sameFloat32_trans one' two'
  | f64 bits =>
      cases k with
      | f64 => cases b with
        | f64 => exact sameFloat64_trans one' two'

end Equality

section Stored
variable {K V : Type} [BEq K] {hashing : HashFunction K}

omit [BEq K] in
-- A probe meets a slot that another probe on its path stopped at, or stops
-- before it, but not at an empty slot.
theorem probe_meets {entries : List (Entry K V)} {stops : Entry K V → Bool} (hits : Entry K V → Bool) (new : Entry K V)
    (passes : ∀ entry, stops entry = false → entry.hash ≠ emptyHash) (present : new.hash ≠ emptyHash)
    (hit : hits new = true) (fuel index : Nat) (increment : UInt32)
    (found : probe entries mask stops fuel index increment = .ok (slot,entry)) :
    ∃ slot' met, probe (entries.set slot new) mask hits fuel index increment = .ok (slot',met) ∧ met.hash ≠ emptyHash := by
  induction fuel generalizing index increment with
  | zero => cases found
  | succ fuel ih =>
      unfold probe at found ⊢
      cases there : entries[index]? with
      | none =>
          rw [there] at found
          cases found
      | some other =>
          rw [there] at found
          dsimp only at found
          by_cases own : index = slot
          · -- the slot itself, now or on a later turn
            have inside : index < entries.length := (List.getElem?_eq_some_iff.mp there).1
            rw [own,List.getElem?_set_self (own ▸ inside)]
            exact ⟨slot,new,if_pos hit,present⟩
          · rw [List.getElem?_set_ne (Ne.symm own),there]
            dsimp only
            by_cases stopped : stops other = true
            · rw [if_pos stopped] at found
              cases found
              exact absurd rfl own
            · rw [if_neg stopped] at found
              by_cases met : hits other = true
              · rw [if_pos met]
                exact ⟨index,other,rfl,passes other (Bool.eq_false_iff.mpr stopped)⟩
              · rw [if_neg met]
                exact ih _ _ found

theorem find_met {t : Table K V} {key : K} {slot : Nat} {met : Entry K V}
    (found : (t.probeFor hashing key fun entry =>
      entry.hash == emptyHash || (entry.hash == hashOf hashing key && entry.key == key)) = .ok (slot,met))
    (present : met.hash ≠ emptyHash) : find hashing t key = .ok (some met.value) := by
  simp [HashTable.find,findEntry,found,present]

variable [Inhabited K] [Inhabited V] {options : Options} {allocates : Nat → Bool}

omit [Inhabited K] [Inhabited V] in
-- A slot on the path of a key, once it holds an entry that answers for the key.
theorem slot_found {t t' : Table K V} {one two : K} {stops : Entry K V → Bool} (new : Entry K V)
    (hashes : hashOf hashing one = hashOf hashing two) (passes : ∀ entry, stops entry = false → entry.hash ≠ emptyHash)
    (hash : new.hash = hashOf hashing one) (key : (new.key == two) = true) (entries : t'.entries = t.entries.set slot new)
    (found : t.probeFor hashing one stops = .ok (slot,entry)) : ∃ value, find hashing t' two = .ok (some value) := by
  have valid : new.hash ≠ emptyHash := by
    intro empty
    have low : firstValidHash ≤ hashOf hashing one := hashOf_valid one
    rw [← hash,empty] at low
    exact absurd low (by decide)
  unfold Table.probeFor at found
  obtain ⟨slot',met,meets,present⟩ := probe_meets
    (fun entry => entry.hash == emptyHash || (entry.hash == hashOf hashing two && entry.key == two)) new passes valid
    (by simp [hash,hashes,key]) _ _ _ found
  have probed : (t'.probeFor hashing two fun entry =>
      entry.hash == emptyHash || (entry.hash == hashOf hashing two && entry.key == two)) = .ok (slot',met) := by
    unfold Table.probeFor Table.mask
    unfold Table.mask at meets
    rw [entries,List.length_set,← hashes]
    rw [← hashes] at meets
    exact meets
  exact ⟨met.value,find_met probed present⟩

omit [Inhabited K] [Inhabited V] in
theorem insert_found {t t' : Table K V} {one two : K} (same : (one == two) = true)
    (hashes : hashOf hashing one = hashOf hashing two) (inserted : insert options hashing t one value = .ok (slot,t')) :
    ∃ found, find hashing t' two = .ok (some found) := by
  unfold HashTable.insert at inserted
  by_cases room : t.slotsFilled < t.entries.length
  · rw [if_pos room] at inserted
    cases probed : t.probeFor hashing one fun entry =>
        entry.hash == emptyHash || (options.reuseTombstones && entry.hash == tombstoneHash) with
    | error failure =>
        rw [probed] at inserted
        cases inserted
    | ok stop =>
        obtain ⟨index,entry⟩ := stop
        rw [probed] at inserted
        cases inserted
        refine slot_found ⟨hashOf hashing one,one,value⟩ hashes ?_ rfl same rfl probed
        intro entry goes empty
        simp [empty] at goes
  · rw [if_neg room] at inserted
    cases inserted

omit [Inhabited K] [Inhabited V] in
theorem findEntry_hit {t : Table K V} {key : K} (looked : findEntry hashing t key = .ok (some (slot,entry))) :
    (t.probeFor hashing key fun entry =>
      entry.hash == emptyHash || (entry.hash == hashOf hashing key && entry.key == key)) = .ok (slot,entry) ∧
      entry.hash = hashOf hashing key ∧ (entry.key == key) = true := by
  change ((t.probeFor hashing key fun entry =>
    entry.hash == emptyHash || (entry.hash == hashOf hashing key && entry.key == key)) >>= _) = _ at looked
  cases probed : t.probeFor hashing key fun entry =>
      entry.hash == emptyHash || (entry.hash == hashOf hashing key && entry.key == key) with
  | error failure =>
      rw [probed] at looked
      cases looked
  | ok stop =>
      obtain ⟨index,met⟩ := stop
      rw [probed] at looked
      by_cases empty : met.hash = emptyHash
      · simp [bind,Except.bind,pure,Except.pure,empty] at looked
      · simp only [bind,Except.bind,pure,Except.pure,beq_iff_eq,empty,if_false,Except.ok.injEq,Option.some.injEq,
          Prod.mk.injEq] at looked
        obtain ⟨rfl,rfl⟩ := looked
        have stopped := (probe_stops _ _ _ _ _ _ probed).2
        simp only [Bool.or_eq_true,beq_iff_eq,empty,false_or,Bool.and_eq_true] at stopped
        exact ⟨rfl,stopped⟩

-- find(two) succeeds after set(one, value) in any table, equal keys of one hash.
theorem set_found {t t' : Table K V} {one two : K} (same : (one == two) = true)
    (through : ∀ key, (key == one) = true → (key == two) = true) (hashes : hashOf hashing one = hashOf hashing two)
    (stored : set options hashing allocates t one value = .ok (slot,t')) : ∃ found, find hashing t' two = .ok (some found) := by
  unfold set at stored
  cases looked : findEntry hashing t one with
  | error failure =>
      rw [looked] at stored
      cases stored
  | ok answer =>
      rw [looked] at stored
      cases answer with
      | none =>
          rcases add_cases stored with ⟨_,inserted⟩ | ⟨_,grown,_,inserted⟩
          · exact insert_found same hashes inserted
          · exact insert_found same hashes inserted
      | some hit =>
          obtain ⟨index,entry⟩ := hit
          cases stored
          obtain ⟨probed,hash,key⟩ := findEntry_hit looked
          refine slot_found {entry with value := value} hashes ?_ hash (through entry.key key) rfl probed
          intro other goes empty
          simp [empty] at goes

end Stored

-- Two keys of one type that operator == finds equal.
structure EqualKeys (memory : Nat → UInt8) (T : KeyType) where
  one : Key memory T
  two : Key memory T
  equal : (one == two) = true

-- They hash alike, so that each finds what was set under the other in any table.
def EqualKeys.Alike (keys : EqualKeys memory T) : Prop :=
  keys.one.compute = keys.two.compute ∧
    ∀ (V : Type) [Inhabited V] (options : Options) (allocates : Nat → Bool) (t t' : Table (Key memory T) V) (value : V)
      (slot : Nat), set options keyHash allocates t keys.one value = .ok (slot,t') →
      ∃ found, find keyHash t' keys.two = .ok (some found)

theorem equal_keys_alike_exact (memory : Nat → UInt8) (T : KeyType) (keys : EqualKeys memory T) :
    keys.Alike ↔ ¬OppositeZeros keys.one keys.two := by
  rw [← compute_equal keys.equal]
  refine ⟨fun alike => alike.1,fun same => ⟨same,fun V _ options allocates t t' value slot stored => ?_⟩⟩
  have hashes : hashOf keyHash keys.one = hashOf keyHash keys.two := by
    have computed : keyHash.compute keys.one = keyHash.compute keys.two := same
    unfold hashOf
    rw [computed]
  exact set_found keys.equal (fun _ matched => equal_trans matched keys.equal) hashes stored

-- 0.0f and -0.0f
theorem opposite_zeros_differ : ¬∀ (memory : Nat → UInt8) (T : KeyType) (keys : EqualKeys memory T), keys.Alike := by
  intro every
  have hashes := (every (fun _ => 0) .f32 ⟨.f32 0,.f32 0x80000000,by decide⟩).1
  exact absurd hashes (by decide)

end HashTable
