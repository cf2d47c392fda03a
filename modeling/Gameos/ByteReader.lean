import Gameos.MachineWords
import Gameos.Leb128

-- A reader over bytes. The offset is signed as in the source: nothing in the
-- reader itself keeps it at or above 0.
structure ByteReader where
  source : List UInt8
  currentOffset : Int
deriving DecidableEq, Repr

namespace ByteReader
open MachineWords

-- How reading code ends without a result; `outside`: it read a byte that is
-- not one of its source.
inductive Failure where
  | asserted (message : String)
  | unreachable (message : String)
  | outside
  | divisionByZero
  | outOfSteps
deriving DecidableEq, Repr

-- A view into the bytes of a reader.
structure View where
  source : List UInt8
  start : Int
  size : Int
deriving DecidableEq, Repr

-- Read_Result: `none` is the result whose `ok` is false.
abbrev ReadResult (α : Type) := Option (α × ByteReader)

-- kstd_assert of the `ok` of a read.
def asserted (message : String) (result : Except Failure (Option α)) : Except Failure α := do
  match ← result with
  | some value => return value
  | none => throw (.asserted message)

def byteIn (source : List UInt8) (offset : Int) : Except Failure UInt8 :=
  if offset < 0 then .error .outside
  else match source[offset.toNat]? with
    | some byte => .ok byte
    | none => .error .outside

def View.get (view : View) (index : Int) : Except Failure UInt8 :=
  if 0 ≤ index ∧ index < view.size then byteIn view.source (view.start + index)
  else .error (.asserted "index out of bounds")

def ofSource (source : List UInt8) : ByteReader := ⟨source,0⟩

def size (reader : ByteReader) : Int := reader.source.length
def remaining (reader : ByteReader) : Int := reader.size - reader.currentOffset
def advance (reader : ByteReader) (count : Int) : ByteReader :=
  {reader with currentOffset := reader.currentOffset + count}

def readU8 (reader : ByteReader) : Except Failure (ReadResult UInt8) := do
  if reader.remaining < 1 then return none
  let byte ← byteIn reader.source reader.currentOffset
  return some (byte,reader.advance 1)

def readBool (reader : ByteReader) : Except Failure (ReadResult Bool) := do
  let value ← reader.readU8
  return value.map fun (byte,reader) => (byte != 0,reader)

def bitCastS8 (byte : UInt8) : Int := if byte.toNat < 128 then byte.toNat else (byte.toNat : Int) - 256

def readS8 (reader : ByteReader) : Except Failure (ReadResult Int) := do
  let value ← reader.readU8
  return value.map fun (byte,reader) => (bitCastS8 byte,reader)

def bytesIn (source : List UInt8) (offset : Int) : Nat → Except Failure (List UInt8)
  | 0 => return []
  | width+1 => do
      let byte ← byteIn source offset
      let bytes ← bytesIn source (offset+1) width
      return byte :: bytes

-- The or of the bytes, each shifted to its place.
def littleEndian : List UInt8 → Nat
  | [] => 0
  | byte :: bytes => byte.toNat + 256 * littleEndian bytes

-- The bytes of a number, lowest first.
def bytesOf : Nat → Nat → List UInt8
  | 0, _ => []
  | width+1, value => .ofNat (value % 256) :: bytesOf width (value / 256)

theorem bytesOf_length (width value : Nat) : (bytesOf width value).length = width := by
  induction width generalizing value with
  | zero => rfl
  | succ width ih => rw [bytesOf,List.length_cons,ih]

theorem littleEndian_bytesOf (fits : value < 256^width) : littleEndian (bytesOf width value) = value := by
  induction width generalizing value with
  | zero => rw [Nat.pow_zero] at fits; rw [bytesOf,littleEndian]; omega
  | succ width ih =>
      rw [Nat.pow_succ] at fits
      rw [bytesOf,littleEndian,ih (Nat.div_lt_of_lt_mul (by omega)),UInt8.toNat_ofNat',
        Nat.mod_mod_of_dvd _ (by decide)]
      omega

theorem littleEndian_lt (bytes : List UInt8) : littleEndian bytes < 256^bytes.length := by
  induction bytes with
  | nil => decide
  | cons byte bytes ih =>
      have small := byte.toNat_lt
      rw [littleEndian,List.length_cons,Nat.pow_succ]
      omega

def readLittleEndian (width : Nat) (reader : ByteReader) : Except Failure (ReadResult Nat) := do
  if reader.remaining < width then return none
  let bytes ← bytesIn reader.source reader.currentOffset width
  return some (littleEndian bytes,reader.advance width)

def readU16 (reader : ByteReader) : Except Failure (ReadResult Nat) := reader.readLittleEndian 2
def readU32 (reader : ByteReader) : Except Failure (ReadResult Nat) := reader.readLittleEndian 4
def readU64 (reader : ByteReader) : Except Failure (ReadResult Nat) := reader.readLittleEndian 8

-- The loop of read_uleb128 and read_sleb128, with the last byte and its shift.
-- After 10 bytes it gives up.
def lebGroups (reader : ByteReader) : Nat → Nat → Nat → Except Failure (Option (Nat × Nat × UInt8))
  | 0, _, _ => return none
  | fuel+1, byteShift, result => do
      if reader.remaining ≤ byteShift then return none
      let byte ← byteIn reader.source (reader.currentOffset + byteShift)
      let result := result ||| ((byte &&& 0x7f).toNat <<< (byteShift * 7)) % 2^64
      if byte &&& 0x80 = 0 then return some (result,byteShift,byte)
      lebGroups reader fuel (byteShift+1) result

def readUleb128 (reader : ByteReader) : Except Failure (ReadResult Nat) := do
  let groups ← reader.lebGroups 10 0 0
  return groups.map fun (result,byteShift,_) => (result,reader.advance (byteShift+1))

def readSleb128 (reader : ByteReader) : Except Failure (ReadResult Int) := do
  let groups ← reader.lebGroups 10 0 0
  return groups.map fun (result,byteShift,byte) =>
    let valueBitCount := (byteShift+1) * 7
    let result := if valueBitCount < 64 ∧ byte &&& 0x40 ≠ 0 then
        result ||| ((2^64-1) <<< valueBitCount) % 2^64
      else result
    (toS64 result,reader.advance (byteShift+1))

def readBytes (reader : ByteReader) (count : Int) : Option (View × ByteReader) :=
  if reader.remaining < count then none
  else some (⟨reader.source,reader.currentOffset,count⟩,reader.advance count)

def cstring : List UInt8 → Option (List UInt8)
  | [] => none
  | byte :: bytes => if byte = 0 then some [] else (cstring bytes).map (byte :: ·)

def readCstring (reader : ByteReader) : Except Failure (ReadResult (List UInt8)) :=
  if reader.currentOffset < 0 then .error .outside
  else return (cstring (reader.source.drop reader.currentOffset.toNat)).map fun text =>
    (text,reader.advance (text.length+1))

def skip (reader : ByteReader) (count : Int) : Option ByteReader :=
  if reader.remaining < count then none else some (reader.advance count)

-- A reader that has `before` behind it and `after` in front of it.
structure Stands (reader : ByteReader) (before after : List UInt8) : Prop where
  source : reader.source = before ++ after
  offset : reader.currentOffset = before.length

theorem Stands.advance (stands : Stands reader before (bytes ++ after)) :
    Stands (reader.advance bytes.length) (before ++ bytes) after := by
  constructor
  · rw [ByteReader.advance,stands.source,List.append_assoc]
  · simp only [ByteReader.advance,stands.offset,List.length_append]; omega

theorem Stands.advance_one (stands : Stands reader before (byte :: after)) :
    Stands (reader.advance 1) (before ++ [byte]) after := by
  have one : Stands reader before ([byte] ++ after) := stands
  exact one.advance

theorem Stands.remaining (stands : Stands reader before after) : reader.remaining = after.length := by
  rw [ByteReader.remaining,ByteReader.size,stands.source,stands.offset,List.length_append]; omega

theorem ok_bind (value : α) (next : α → Except Failure β) : (Except.ok value >>= next) = next value := rfl

theorem ok_of_bind {first : Except Failure α} {next : α → Except Failure β} (result : (first >>= next) = .ok value) :
    ∃ middle, first = .ok middle ∧ next middle = .ok value := by
  cases first with
  | ok middle => exact ⟨middle,rfl,result⟩
  | error fault => cases result

theorem advance_advance (reader : ByteReader) (m n : Int) :
    (reader.advance m).advance n = reader.advance (m + n) := by
  rw [ByteReader.advance,ByteReader.advance,ByteReader.advance]
  simp only [Int.add_assoc]

theorem byteIn_append (before : List UInt8) (byte : UInt8) (after : List UInt8) :
    byteIn (before ++ byte :: after) before.length = .ok byte := by
  rw [byteIn,if_neg (by omega),Int.toNat_natCast,List.getElem?_append_right (Nat.le_refl _),Nat.sub_self]
  rfl

theorem bytesIn_append (before bytes after : List UInt8) :
    bytesIn (before ++ (bytes ++ after)) before.length bytes.length = .ok bytes := by
  induction bytes generalizing before with
  | nil => rfl
  | cons byte bytes ih =>
      have rest := ih (before ++ [byte])
      rw [List.append_assoc,List.length_append,List.singleton_append] at rest
      rw [List.length_cons,bytesIn,List.cons_append,byteIn_append]
      simp only [List.length_singleton,Int.natCast_add,Int.natCast_one] at rest
      show (do let bytes ← bytesIn _ _ _; return byte :: bytes) = _
      rw [rest]; rfl

theorem Stands.readU8 (stands : Stands reader before (byte :: after)) :
    reader.readU8 = .ok (some (byte,reader.advance 1)) := by
  rw [ByteReader.readU8,stands.remaining,if_neg (by rw [List.length_cons]; omega),stands.source,stands.offset,
    byteIn_append]
  rfl

theorem Stands.readBool (stands : Stands reader before (byte :: after)) :
    reader.readBool = .ok (some (byte != 0,reader.advance 1)) := by
  rw [ByteReader.readBool,stands.readU8]; rfl

theorem Stands.readS8 (stands : Stands reader before (byte :: after)) :
    reader.readS8 = .ok (some (bitCastS8 byte,reader.advance 1)) := by
  rw [ByteReader.readS8,stands.readU8]; rfl

theorem Stands.readLittleEndian (stands : Stands reader before (bytes ++ after)) (width : bytes.length = n) :
    reader.readLittleEndian n = .ok (some (littleEndian bytes,reader.advance bytes.length)) := by
  subst width
  rw [ByteReader.readLittleEndian,stands.remaining,if_neg (by rw [List.length_append]; omega),stands.source,
    stands.offset,bytesIn_append]
  rfl

theorem Stands.skip (stands : Stands reader before (bytes ++ after)) :
    reader.skip bytes.length = some (reader.advance bytes.length) := by
  rw [ByteReader.skip,stands.remaining,if_neg (by rw [List.length_append]; omega)]

theorem Stands.readBytes (stands : Stands reader before (bytes ++ after)) :
    reader.readBytes bytes.length = some (⟨reader.source,reader.currentOffset,bytes.length⟩,
      reader.advance bytes.length) := by
  rw [ByteReader.readBytes,stands.remaining,if_neg (by rw [List.length_append]; omega)]

theorem Stands.view {i : Nat} (stands : Stands reader before (bytes ++ after)) (inside : bytes[i]? = some byte) :
    View.get ⟨reader.source,reader.currentOffset,bytes.length⟩ i = .ok byte := by
  obtain ⟨bound,at_i⟩ := List.getElem?_eq_some_iff.mp inside
  rw [View.get,if_pos ⟨by omega,by simp only; omega⟩,stands.source,stands.offset]
  have split : before ++ (bytes ++ after) = (before ++ bytes.take i) ++ byte :: (bytes.drop (i+1) ++ after) := by
    rw [← at_i,List.append_assoc,← List.cons_append,← List.append_assoc (bytes.take i),← List.drop_eq_getElem_cons,
      List.take_append_drop]
  have place : (before.length : Int) + i = (before ++ bytes.take i).length := by
    rw [List.length_append,List.length_take]; omega
  rw [split,place,byteIn_append]

-- The loop over the groups, with `done` read and `groups` to come.
theorem Stands.lebGroups (done : List UInt8) (stands : Stands reader before ((done ++ groups) ++ after))
    (whole : Leb128.terminated groups = true) (fuel : Nat) (enough : groups.length ≤ fuel) :
    reader.lebGroups fuel done.length (Leb128.unsignedValue done % 2^64) =
      .ok (some (Leb128.unsignedValue (done ++ groups) % 2^64,(done ++ groups).length - 1,groups.getLastD 0)) := by
  induction groups generalizing done fuel with
  | nil => cases whole
  | cons byte groups ih =>
      cases fuel with
      | zero => simp at enough
      | succ fuel =>
          have here : byteIn reader.source (reader.currentOffset + done.length) = .ok byte := by
            have place : (before.length : Int) + done.length = (before ++ done).length := by
              rw [List.length_append]; omega
            rw [stands.source,stands.offset,place,List.append_assoc,← List.append_assoc before,List.cons_append,
              byteIn_append]
          have left : ¬ reader.remaining ≤ (done.length : Int) := by
            rw [stands.remaining,List.length_append,List.length_append,List.length_cons]; omega
          rw [ByteReader.lebGroups,if_neg left,here]
          simp only [ok_bind,Leb128.or_group,Leb128.continue_bit]
          cases groups with
          | nil =>
              rw [Leb128.terminated,decide_eq_true_eq] at whole
              simp [whole]
              rfl
          | cons next groups =>
              rw [Leb128.terminated.eq_3 byte _ (by simp),Bool.and_eq_true,decide_eq_true_eq] at whole
              simp only [show ¬ byte.toNat < 128 by omega,if_false]
              have stands' : Stands reader before (((done ++ [byte]) ++ (next :: groups)) ++ after) := by
                rwa [List.append_cons] at stands
              have rest := ih (done ++ [byte]) stands' whole.2 fuel (by simpa using enough)
              rw [List.length_append,List.length_singleton] at rest
              rw [rest,← List.append_cons]
              rfl

theorem terminated_length (whole : Leb128.terminated bytes = true) : 0 < bytes.length := by
  cases bytes with
  | nil => cases whole
  | cons => exact Nat.succ_pos _

-- What comes out for any encoding of at most ten bytes: its value as a word.
theorem Stands.uleb128_word (stands : Stands reader before (bytes ++ after))
    (whole : Leb128.terminated bytes = true) (short : bytes.length ≤ 10) :
    reader.readUleb128 = .ok (some (Leb128.unsignedValue bytes % 2^64,reader.advance bytes.length)) := by
  have groups := stands.lebGroups [] whole 10 short
  have positive := terminated_length whole
  rw [ByteReader.readUleb128]
  simp only [List.nil_append,List.length_nil,Leb128.unsignedValue,Nat.zero_mod] at groups
  rw [groups]
  simp only [ok_bind,Option.map_some]
  rw [show ((bytes.length - 1 : Nat) : Int) + 1 = bytes.length by omega]
  rfl

theorem Stands.readUleb128 (stands : Stands reader before (bytes ++ after))
    (whole : Leb128.terminated bytes = true) (short : bytes.length ≤ 10) (fits : Leb128.unsignedValue bytes < 2^64) :
    reader.readUleb128 = .ok (some (Leb128.unsignedValue bytes,reader.advance bytes.length)) := by
  have word := stands.uleb128_word whole short
  rwa [Nat.mod_eq_of_lt fits] at word

-- All ones from bit n on.
theorem ones_above (n : Nat) (bound : n ≤ 64) : ((2^64-1) <<< n) % 2^64 = (2^(64-n) - 1) <<< n := by
  have split : (2:Nat)^64 = 2^n * 2^(64-n) := by rw [← Nat.pow_add]; congr 1; omega
  have positive := Nat.two_pow_pos n
  have wide := Nat.le_mul_of_pos_right (2^64) positive
  have shifted : (2^64-1) <<< n = (2^64 - 2^n) + 2^64 * (2^n - 1) := by
    rw [Nat.shiftLeft_eq,Nat.sub_one_mul,Nat.mul_sub_one]
    have below : (2:Nat)^n ≤ 2^64 := Nat.pow_le_pow_right (by decide) bound
    omega
  rw [shifted,Nat.add_mul_mod_self_left,Nat.mod_eq_of_lt (by omega),Nat.shiftLeft_eq,Nat.sub_one_mul,
    Nat.mul_comm (2^(64-n)),← split]

-- Below 64 bits the sign is extended; a tenth byte reaches past bit 63 by itself.
theorem sign_extended (bytes : List UInt8) (short : bytes.length ≤ 10)
    (low : -2^63 ≤ Leb128.signedValue bytes) (high : Leb128.signedValue bytes < 2^63) :
    toS64 (if bytes.length * 7 < 64 ∧ bytes.getLastD 0 &&& 0x40 ≠ 0 then
        Leb128.unsignedValue bytes % 2^64 ||| ((2^64-1) <<< (bytes.length * 7)) % 2^64
      else Leb128.unsignedValue bytes % 2^64 : Nat) = Leb128.signedValue bytes := by
  have below := Leb128.unsignedValue_lt bytes
  have sign : (bytes.getLastD 0 &&& 0x40 ≠ 0) ↔ Leb128.negative bytes = true := by
    rw [ne_eq,Leb128.sign_bit,Leb128.negative,decide_eq_true_eq]; omega
  rw [Leb128.signedValue] at low high ⊢
  rw [Leb128.pow_groups] at below low high ⊢
  simp only [sign,Nat.mul_comm bytes.length 7]
  by_cases minus : Leb128.negative bytes = true
  · simp only [minus,if_true,and_true] at low high ⊢
    by_cases narrow : 7 * bytes.length < 64
    · have room : (2:Nat)^(7*bytes.length) ≤ 2^63 := Nat.pow_le_pow_right (by decide) (by omega)
      have split : (2:Nat)^64 = 2^(64-7*bytes.length) * 2^(7*bytes.length) := by
        rw [← Nat.pow_add]; congr 1; omega
      rw [if_pos narrow,Nat.mod_eq_of_lt (by omega),ones_above _ (by omega),Nat.or_comm,
        ← Nat.shiftLeft_add_eq_or_of_lt below,Nat.shiftLeft_eq,Nat.sub_one_mul,← split,toS64]
      omega
    · rw [show 7 * bytes.length = 70 by omega] at low high ⊢
      rw [if_neg (by decide),toS64]
      omega
  · rw [if_neg minus] at low high ⊢
    rw [if_neg (fun both => minus both.2),Nat.mod_eq_of_lt (by omega)]
    exact toS64_of_range low high

-- The word of a signed encoding, its sign extended below 64 bits.
def signedWord (bytes : List UInt8) : Int :=
  toS64 (if bytes.length * 7 < 64 ∧ bytes.getLastD 0 &&& 0x40 ≠ 0 then
      Leb128.unsignedValue bytes % 2^64 ||| ((2^64-1) <<< (bytes.length * 7)) % 2^64
    else Leb128.unsignedValue bytes % 2^64 : Nat)

theorem Stands.sleb128_word (stands : Stands reader before (bytes ++ after))
    (whole : Leb128.terminated bytes = true) (short : bytes.length ≤ 10) :
    reader.readSleb128 = .ok (some (signedWord bytes,reader.advance bytes.length)) := by
  have groups := stands.lebGroups [] whole 10 short
  have positive := terminated_length whole
  rw [ByteReader.readSleb128]
  simp only [List.nil_append,List.length_nil,Leb128.unsignedValue,Nat.zero_mod] at groups
  rw [groups]
  simp only [ok_bind,Option.map_some,show bytes.length - 1 + 1 = bytes.length by omega]
  rw [show ((bytes.length - 1 : Nat) : Int) + 1 = bytes.length by omega]
  rfl

theorem Stands.readSleb128 (stands : Stands reader before (bytes ++ after))
    (whole : Leb128.terminated bytes = true) (short : bytes.length ≤ 10)
    (low : -2^63 ≤ Leb128.signedValue bytes) (high : Leb128.signedValue bytes < 2^63) :
    reader.readSleb128 = .ok (some (Leb128.signedValue bytes,reader.advance bytes.length)) := by
  have word := stands.sleb128_word whole short
  rwa [signedWord,sign_extended bytes short low high] at word

end ByteReader
