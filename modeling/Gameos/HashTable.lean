import Gameos.MachineWords
import Gameos.TriangularProbe
import Gameos.FiniteMaps

namespace HashTable
open MachineWords

-- LOAD_FACTOR_PERCENT and REUSE_TOMBSTONES. A zero load factor makes every
-- `add` grow the table; from 100 on the static assertion refuses it.
structure Options where
  loadFactorPercent : Nat
  reuseTombstones : Bool
  positive : 0 < loadFactorPercent
  below : loadFactorPercent < 100

-- hash::compute of a key type.
structure HashFunction (K : Type) where
  compute : K → UInt32

-- And of one whose equality agrees with it.
structure Hashing (K : Type) [BEq K] extends HashFunction K where
  agrees : ∀ {a b : K}, (a == b) = true → compute a = compute b

def knuthHash (value : UInt64) : UInt64 := 0x9E3779B97F4A7C15 * value

-- The key types that are 32 bit unsigned integers.
def integralHashing : Hashing UInt32 where
  compute key := (knuthHash key.toUInt64 >>> 32).toUInt32
  agrees same := by rw [eq_of_beq same]

structure Entry (K V : Type) where
  hash : UInt32
  key : K
  value : V
deriving DecidableEq, Repr

structure Table (K V : Type) where
  count : Nat
  slotsFilled : Nat
  entries : List (Entry K V)
deriving DecidableEq, Repr

def minSize : Nat := 32
def emptyHash : UInt32 := 0
def tombstoneHash : UInt32 := 1
def firstValidHash : UInt32 := 2

-- `exhausted`: the backing allocator refused the slots. `diverged`: a probe
-- went round all slots without an end, or `add` nested deeper than it can.
inductive Failure where
  | asserted (message : String)
  | diverged
  | exhausted
deriving DecidableEq, Repr

structure RemoveResult (V : Type) where
  success : Bool
  value : V
deriving DecidableEq, Repr

variable {K V : Type} [BEq K]

instance : CoeOut (Hashing K) (HashFunction K) := ⟨Hashing.toHashFunction⟩

def hashOf (hashing : HashFunction K) (key : K) : UInt32 :=
  let hash := hashing.compute key
  if hash < firstValidHash then hash + firstValidHash else hash

def Table.mask (t : Table K V) : UInt32 := .ofNat (t.entries.length - 1)

-- The while loop of _find_entry and of add: steps 1, 2, 3, .. until an entry stops it.
def probe (entries : List (Entry K V)) (mask : UInt32) (stops : Entry K V → Bool) :
    Nat → Nat → UInt32 → Except Failure (Nat × Entry K V)
  | 0, _, _ => .error .diverged
  | fuel+1, index, probeIncrement =>
      match entries[index]? with
      | none => .error (.asserted "index out of bounds")
      | some entry =>
          if stops entry then .ok (index,entry)
          else probe entries mask stops fuel ((index + probeIncrement.toNat) &&& mask.toNat) (probeIncrement + 1)

def Table.probeFor (hashing : HashFunction K) (t : Table K V) (key : K) (stops : Entry K V → Bool) :
    Except Failure (Nat × Entry K V) :=
  probe t.entries t.mask stops (t.entries.length + 1) (hashOf hashing key &&& t.mask).toNat 1

def findEntry (hashing : HashFunction K) (t : Table K V) (key : K) : Except Failure (Option (Nat × Entry K V)) := do
  let hash := hashOf hashing key
  let (index,entry) ← t.probeFor hashing key fun entry =>
    entry.hash == emptyHash || (entry.hash == hash && entry.key == key)
  return if entry.hash == emptyHash then none else some (index,entry)

def find (hashing : HashFunction K) (t : Table K V) (key : K) : Except Failure (Option V) := do
  let entry ← findEntry hashing t key
  return entry.map (·.2.value)

def contains (hashing : HashFunction K) (t : Table K V) (key : K) : Except Failure Bool := do
  let value ← find hashing t key
  return value.isSome

-- The part of add after its check of the load. A reused tombstone was counted
-- as filled already, so `slots_filled` goes down before it goes up.
def insert (options : Options) (hashing : HashFunction K) (t : Table K V) (key : K) (value : V) :
    Except Failure (Nat × Table K V) := do
  if t.slotsFilled < t.entries.length then
    let (index,entry) ← t.probeFor hashing key fun entry =>
      entry.hash == emptyHash || (options.reuseTombstones && entry.hash == tombstoneHash)
    let filled := if entry.hash == emptyHash then t.slotsFilled else t.slotsFilled - 1
    return (index,{
      count := t.count + 1
      slotsFilled := filled + 1
      entries := t.entries.set index ⟨hashOf hashing key,key,value⟩})
  else throw (.asserted "slots_filled < entries.size")

def nextPowerOfTwo (value : Nat) : Nat := go 63 1
where
  go : Nat → Nat → Nat
    | 0, result => result
    | fuel+1, result => if value > result then go fuel (result + result) else result

variable [Inhabited K] [Inhabited V]

-- Fresh slots of _resize_entries; the old entries are what the table held.
def resizeEntries (allocates : Nat → Bool) (t : Table K V) (newSlotCount : Nat) : Except Failure (Table K V) :=
  let slotCount := nextPowerOfTwo (max newSlotCount minSize)
  if allocates slotCount then .ok {t with entries := .replicate slotCount ⟨emptyHash,default,default⟩}
  else .error .exhausted

omit [BEq K] [Inhabited K] [Inhabited V] in
def rehashEntry (add : Table K V → K → V → Except Failure (Nat × Table K V)) (t : Table K V) (entry : Entry K V) :
    Except Failure (Table K V) := do
  if firstValidHash ≤ entry.hash then
    let (_,t) ← add t entry.key entry.value
    return t
  else return t

-- expand(new_slot_count) after its assertion, with the add it rehashes by.
def rehash (allocates : Nat → Bool) (add : Table K V → K → V → Except Failure (Nat × Table K V))
    (t : Table K V) (newSlotCount : Nat) : Except Failure (Table K V) := do
  let resized ← resizeEntries allocates t (max newSlotCount minSize)
  t.entries.foldlM (rehashEntry add) {resized with count := 0,slotsFilled := 0}

-- The size expand() picks: the same one when most filled slots are tombstones.
def expansion (options : Options) (t : Table K V) : Nat :=
  if (t.count*2 + 1) * 100 < t.entries.length * options.loadFactorPercent then t.entries.length
  else t.entries.length * 2

-- add calls expand and expand calls add; `depth` is how often they may nest.
def add (options : Options) (hashing : HashFunction K) (allocates : Nat → Bool) :
    Nat → Table K V → K → V → Except Failure (Nat × Table K V)
  | 0, _, _, _ => .error .diverged
  | depth+1, t, key, value => do
      let t ← if (t.slotsFilled+1) * 100 ≥ t.entries.length * options.loadFactorPercent then
          rehash allocates (add options hashing allocates depth) t (expansion options t)
        else pure t
      insert options hashing t key value

-- The adds of the rehash a growing add starts never grow the table again.
def nesting : Nat := 2

def expand (options : Options) (hashing : HashFunction K) (allocates : Nat → Bool) (t : Table K V) :
    Except Failure (Table K V) :=
  rehash allocates (add options hashing allocates nesting) t (expansion options t)

def expandTo (options : Options) (hashing : HashFunction K) (allocates : Nat → Bool) (t : Table K V)
    (newSlotCount : Int) : Except Failure (Table K V) :=
  if isPowerOfTwo newSlotCount then
    rehash allocates (add options hashing allocates nesting) t newSlotCount.toNat
  else .error (.asserted "If you pass in a value yourself it must be a power of 2.")

def set (options : Options) (hashing : HashFunction K) (allocates : Nat → Bool) (t : Table K V) (key : K) (value : V) :
    Except Failure (Nat × Table K V) := do
  match ← findEntry hashing t key with
  | some (index,entry) => return (index,{t with entries := t.entries.set index {entry with value := value}})
  | none => add options hashing allocates nesting t key value

omit [Inhabited K] in
def remove (hashing : HashFunction K) (t : Table K V) (key : K) : Except Failure (RemoveResult V × Table K V) := do
  if t.entries.length = 0 then return (⟨false,default⟩,t)
  match ← findEntry hashing t key with
  | some (index,entry) => return (⟨true,entry.value⟩,{t with
      count := t.count - 1
      entries := t.entries.set index {entry with hash := tombstoneHash}})
  | none => return (⟨false,default⟩,t)

omit [BEq K] [Inhabited K] [Inhabited V] in
def reset (t : Table K V) : Table K V where
  count := 0
  slotsFilled := 0
  entries := t.entries.map fun entry => {entry with hash := 0}

omit [BEq K] in
def construct (allocates : Nat → Bool) (initialSize : Int) : Except Failure (Table K V) :=
  resizeEntries allocates ⟨0,0,[]⟩ initialSize.toNat

end HashTable
