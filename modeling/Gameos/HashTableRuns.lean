import Gameos.HashTableGrowth

namespace HashTable
open MachineWords TriangularProbe

variable {K V : Type} [BEq K] [Inhabited V]

-- The size given to expand is one its assertion lets through.
inductive Call (K V : Type) where
  | set (key : K) (value : V)
  | remove (key : K)
  | reset
  | expand
  | expandTo (newSlotCount : {n : Int // isPowerOfTwo n = true})
  | find (key : K)

inductive Answer (V : Type) where
  | done
  | removed (result : RemoveResult V)
  | found (value : Option V)
deriving DecidableEq, Repr

-- What the calls are for: the same calls on a finite map.
def mapCall (map : FiniteMap K V) [EquivBEq K] : Call K V → FiniteMap K V × Answer V
  | .set key value => (map.store key value,.done)
  | .remove key => (map.discard key,.removed ⟨(map.lookup key).isSome,(map.lookup key).getD default⟩)
  | .reset => (.empty,.done)
  | .expand => (map,.done)
  | .expandTo _ => (map,.done)
  | .find key => (map,.found (map.lookup key))

def mapRun [EquivBEq K] (map : FiniteMap K V) : List (Call K V) → FiniteMap K V × List (Answer V)
  | [] => (map,[])
  | call :: calls =>
      let (next,answer) := mapCall map call
      let (final,answers) := mapRun next calls
      (final,answer :: answers)

-- The last value set for a key that was not removed or reset since; latest call first.
omit [Inhabited V] in
def lastSet : List (Call K V) → K → Option V
  | [], _ => none
  | .set key value :: earlier, other => if key == other then some value else lastSet earlier other
  | .remove key :: earlier, other => if key == other then none else lastSet earlier other
  | .reset :: _, _ => none
  | .expand :: earlier, other => lastSet earlier other
  | .expandTo _ :: earlier, other => lastSet earlier other
  | .find _ :: earlier, other => lastSet earlier other

theorem mapCall_lookup [EquivBEq K] (map : FiniteMap K V) (earlier : List (Call K V))
    (agrees : ∀ key, map.lookup key = lastSet earlier key) (call : Call K V) (key : K) :
    (mapCall map call).1.lookup key = lastSet (call :: earlier) key := by
  cases call with
  | set other value => rw [mapCall,lastSet,FiniteMap.lookup_store,agrees]
  | remove other => rw [mapCall,lastSet,FiniteMap.lookup_discard,agrees]
  | reset => rfl
  | expand => exact agrees key
  | expandTo _ => exact agrees key
  | find _ => exact agrees key

theorem mapRun_lookup [EquivBEq K] (map : FiniteMap K V) (earlier : List (Call K V))
    (agrees : ∀ key, map.lookup key = lastSet earlier key) (calls : List (Call K V)) (key : K) :
    (mapRun map calls).1.lookup key = lastSet (calls.reverse ++ earlier) key := by
  induction calls generalizing map earlier with
  | nil => exact agrees key
  | cons call calls ih =>
      rw [List.reverse_cons,List.append_assoc]
      exact ih (mapCall map call).1 (call :: earlier) (mapCall_lookup map earlier agrees call)

variable [Inhabited K]

def perform (options : Options) (hashing : Hashing K) (allocates : Nat → Bool) (t : Table K V) :
    Call K V → Except Failure (Table K V × Answer V)
  | .set key value => do
      let (_,t) ← set options hashing allocates t key value
      return (t,.done)
  | .remove key => do
      let (result,t) ← remove hashing t key
      return (t,.removed result)
  | .reset => return (reset t,.done)
  | .expand => return (← expand options hashing allocates t,.done)
  | .expandTo newSlotCount => return (← expandTo options hashing allocates t newSlotCount,.done)
  | .find key => return (t,.found (← find hashing t key))

def run (options : Options) (hashing : Hashing K) (allocates : Nat → Bool) (t : Table K V) :
    List (Call K V) → Except Failure (Table K V × List (Answer V))
  | [] => return (t,[])
  | call :: calls => do
      let (t,answer) ← perform options hashing allocates t call
      let (t,answers) ← run options hashing allocates t calls
      return (t,answer :: answers)

variable {options : Options} {hashing : Hashing K} {allocates : Nat → Bool} {t : Table K V} {map : FiniteMap K V}

theorem set_settled [EquivBEq K] (limits : ∀ n, allocates n = true → n ≤ 2^32)
    (represents : Represents options hashing t map) (key : K) (value : V) :
    Settled (set options hashing allocates t key value) fun r =>
      Represents options hashing r.2 (map.store key value) := by
  rw [HashTable.set]
  rcases represents.findEntry key with ⟨slot,entry,found,there,live,same⟩ | ⟨found,absent⟩
  · rw [found]
    exact represents.replace there live same value
  · rw [found]
    refine add_settled limits represents (map.lookup_none.mpr ?_) value
    exact fun pair member => absent pair (represents.content.mem_iff.mpr member)

omit [Inhabited K] in
theorem remove_settled [EquivBEq K] (represents : Represents options hashing t map) (key : K) :
    Settled (remove hashing t key) fun r => Represents options hashing r.2 (map.discard key) ∧
      r.1 = ⟨(map.lookup key).isSome,(map.lookup key).getD default⟩ := by
  have found := represents.find key
  rw [HashTable.find] at found
  rw [remove,if_neg (by have := represents.sized.bounds; omega)]
  rcases represents.findEntry key with ⟨slot,entry,located,there,live,same⟩ | ⟨located,absent⟩
  · rw [located] at found ⊢
    rw [← Except.ok.inj found]
    exact ⟨represents.bury there live same,rfl⟩
  · rw [located] at found ⊢
    rw [← Except.ok.inj found]
    refine ⟨represents.congr ?_,rfl⟩
    have kept : (map.discard key).pairs = map.pairs := List.filter_eq_self.mpr fun pair member => by
      rw [absent pair (represents.content.mem_iff.mpr member)]; rfl
    rw [kept]

theorem rehash_add_settled [EquivBEq K] (limits : ∀ n, allocates n = true → n ≤ 2^32)
    (represents : Represents options hashing t map) (newSlotCount : Nat) :
    Settled (rehash allocates (add options hashing allocates nesting) t newSlotCount) fun t' =>
      Represents options hashing t' map := by
  refine (rehash_settled (fun _ _ => True) limits ?_ represents newSlotCount fun _ _ _ => trivial).weaken
    fun _ result => result.1
  intro n s m key value represents' _ absent
  exact (add_settled limits represents' absent value).weaken fun _ result => ⟨result,trivial⟩

-- Each call keeps the table in step with the map and gives the map's answer.
theorem perform_settled [EquivBEq K] (limits : ∀ n, allocates n = true → n ≤ 2^32)
    (represents : Represents options hashing t map) (call : Call K V) :
    Settled (perform options hashing allocates t call) fun r =>
      Represents options hashing r.1 (mapCall map call).1 ∧ r.2 = (mapCall map call).2 := by
  cases call with
  | set key value => exact (set_settled limits represents key value).bind fun _ result => ⟨result,rfl⟩
  | remove key => exact (remove_settled represents key).bind fun _ result => ⟨result.1,by rw [mapCall,← result.2]⟩
  | reset => exact ⟨represents.reset,rfl⟩
  | expand => exact (rehash_add_settled limits represents _).bind fun _ result => ⟨result,rfl⟩
  | expandTo newSlotCount =>
      rw [perform,expandTo,if_pos newSlotCount.property]
      exact (rehash_add_settled limits represents _).bind fun _ result => ⟨result,rfl⟩
  | find key =>
      rw [perform,represents.find key]
      exact ⟨represents,rfl⟩

theorem run_settled [EquivBEq K] (limits : ∀ n, allocates n = true → n ≤ 2^32)
    (represents : Represents options hashing t map) (calls : List (Call K V)) :
    Settled (run options hashing allocates t calls) fun r =>
      Represents options hashing r.1 (mapRun map calls).1 ∧ r.2 = (mapRun map calls).2 := by
  induction calls generalizing t map with
  | nil => exact ⟨represents,rfl⟩
  | cons call calls ih =>
      refine (perform_settled limits represents call).bind ?_
      rintro ⟨next,answer⟩ ⟨represents',same⟩
      refine (ih represents').bind ?_
      rintro ⟨final,answers⟩ ⟨represents'',rest⟩
      subst same rest
      exact ⟨represents'',rfl⟩

theorem construct_settled (options : Options) (hashing : Hashing K) (limits : ∀ n, allocates n = true → n ≤ 2^32) (initialSize : Int) :
    Settled (construct (K:=K) (V:=V) allocates initialSize) fun t => Represents options hashing t FiniteMap.empty := by
  rw [construct,resizeEntries]
  split
  · rename_i granted
    obtain ⟨k,low,high,size⟩ := nextPowerOfTwo_sized (max initialSize.toNat minSize)
      (Nat.le_max_right initialSize.toNat minSize) (limits _ granted)
    exact fresh_represents rfl ⟨k,low,high,by rw [List.length_replicate,size]⟩ rfl rfl
  · trivial

-- Every run from a constructed table ends without a failed assertion and
-- without an endless probe, or the allocator refuses. It answers as the finite
-- map does, and its slots and counters describe that map.
theorem table_refines_finite_map [EquivBEq K] (options : Options) (hashing : Hashing K) (allocates : Nat → Bool)
    (limits : ∀ n, allocates n = true → n ≤ 2^32) (initialSize : Int) (calls : List (Call K V)) :
    Settled (do let t ← construct allocates initialSize; run options hashing allocates t calls) fun (t,answers) =>
      answers = (mapRun FiniteMap.empty calls).2 ∧
      (∀ key, find hashing t key = .ok (lastSet calls.reverse key)) ∧
      (∀ key, (lastSet calls.reverse key).isSome ↔ ∃ pair ∈ t.live, (pair.1 == key) = true) ∧
      (t.live.Pairwise fun one two => (one.1 == two.1) = false) ∧
      t.count = t.live.length ∧
      t.slotsFilled = t.entries.countP Entry.filled ∧
      t.slotsFilled < t.entries.length ∧
      ∀ (hash : UInt32) (slot : Nat), slot < t.entries.length →
        ∃ j < t.entries.length, position hash t.entries.length j = slot := by
  refine (construct_settled options hashing limits initialSize).bind fun fresh start => ?_
  refine (run_settled limits start calls).weaken ?_
  rintro ⟨t,answers⟩ ⟨represents,same⟩
  have last : ∀ key, (mapRun FiniteMap.empty calls).1.lookup key = lastSet calls.reverse key := by
    intro key
    have agree := mapRun_lookup FiniteMap.empty [] (fun _ => rfl) calls key
    rwa [List.append_nil] at agree
  refine ⟨same,?_,?_,represents.distinct,?_,represents.filled,represents.room,?_⟩
  · intro key
    rw [represents.find key,last]
  · intro key
    rw [← last,Option.isSome_iff_exists]
    simp only [FiniteMap.lookup_some,represents.content.mem_iff]
    exact ⟨fun ⟨_,pair,member,equal,_⟩ => ⟨pair,member,equal⟩,fun ⟨pair,member,equal⟩ => ⟨_,pair,member,equal,rfl⟩⟩
  · rw [live_length,represents.counted]
  · exact fun hash slot inside => position_covers represents.sized hash inside

-- A table that holds one key per percent of its load factor grows on the second set.
def smallOptions : Options := ⟨3,true,by decide,by decide⟩

def smallCalls : List (Call UInt32 Nat) :=
  [.set 6 7,.set 9 8,.set 6 5,.remove 9,.expandTo ⟨32,by decide⟩,.find 6,.find 9]

theorem table_refines_finite_map_small :
    Settled (do let t ← construct (fun n => n ≤ 2^32) 0; run smallOptions integralHashing (fun n => n ≤ 2^32) t smallCalls)
      (fun (t,answers) => answers = (mapRun FiniteMap.empty smallCalls).2 ∧
        (∀ key, find integralHashing t key = .ok (lastSet smallCalls.reverse key)) ∧
        (∀ key, (lastSet smallCalls.reverse key).isSome ↔ ∃ pair ∈ t.live, (pair.1 == key) = true) ∧
        (t.live.Pairwise fun one two => (one.1 == two.1) = false) ∧
        t.count = t.live.length ∧
        t.slotsFilled = t.entries.countP Entry.filled ∧
        t.slotsFilled < t.entries.length ∧
        ∀ (hash : UInt32) (slot : Nat), slot < t.entries.length →
          ∃ j < t.entries.length, position hash t.entries.length j = slot) ∧
    (do let t ← construct (fun n => n ≤ 2^32) 0
        let (_,answers) ← run smallOptions integralHashing (fun n => n ≤ 2^32) t smallCalls
        return answers) =
      .ok [.done,.done,.done,.removed ⟨true,8⟩,.done,.found (some 5),.found none] :=
  ⟨table_refines_finite_map smallOptions integralHashing (fun n => n ≤ 2^32)
    (fun _ granted => of_decide_eq_true granted) 0 smallCalls,by decide⟩

end HashTable
