import Gameos.HashTableGrowth

-- ensure_has_space_for, on tables that add may have given one key several times.
namespace HashTable
open MachineWords

variable {K V : Type} [BEq K] [Inhabited K] [Inhabited V]

-- The backing allocator of tables whose mask fits its 32 bits.
structure Backing where
  allocates : Nat → Bool
  limits : ∀ n, allocates n = true → n ≤ 2^32

-- Past 2^62 the doubling overflows, comes to 0 and stays there.
def next_power_of_two (value : Int) : Except Failure Int :=
  if value = 0 then .error (.asserted "value != 0")
  else if 4611686018427387904 < value then .error .diverged
  else .ok (nextPowerOfTwo value.toNat)

def ensureHasSpaceFor (options : Options) (hashing : HashFunction K) (allocates : Nat → Bool) (t : Table K V)
    (itemCount : Int) : Except Failure (Table K V) :=
  if toS64 (toS64 (t.slotsFilled + itemCount) * 100) < ((t.entries.length * options.loadFactorPercent : Nat) : Int) then
    .ok t
  else
    -- slots of removed entries are not moved over
    (next_power_of_two ((toS64 (toS64 (t.count + itemCount) * 100)).tdiv options.loadFactorPercent)).bind fun newSlotCount =>
    expandTo options hashing allocates t newSlotCount

-- Tables that the public calls make, `add` of a key that is there included. The adds
-- of an expansion may nest to any depth.
inductive Reachable (options : Options) (hashing : HashFunction K) (backing : Backing) : Table K V → Prop where
  | construct : construct backing.allocates initialSize = .ok t → Reachable options hashing backing t
  | add : Reachable options hashing backing t → add options hashing backing.allocates depth t key value = .ok (slot,t') →
      Reachable options hashing backing t'
  | set : Reachable options hashing backing t → set options hashing backing.allocates t key value = .ok (slot,t') →
      Reachable options hashing backing t'
  | remove : Reachable options hashing backing t → remove hashing t key = .ok (result,t') →
      Reachable options hashing backing t'
  | reset : Reachable options hashing backing t → Reachable options hashing backing (reset t)
  | expand (newSlotCount : Nat) : Reachable options hashing backing t →
      rehash backing.allocates (HashTable.add options hashing backing.allocates depth) t newSlotCount = .ok t' →
      Reachable options hashing backing t'
  | ensure : Reachable options hashing backing t →
      ensureHasSpaceFor options hashing backing.allocates t itemCount = .ok t' → Reachable options hashing backing t'

-- The check of add that calls expand.
def Grows (options : Options) (t : Table K V) : Prop :=
  (t.slotsFilled + 1) * 100 ≥ t.entries.length * options.loadFactorPercent

-- Live entries stay in their slots.
def Stays (t t' : Table K V) : Prop :=
  t'.entries.length = t.entries.length ∧
    ∀ (slot : Nat) (entry : Entry K V), t.entries[slot]? = some entry → entry.live = true → t'.entries[slot]? = some entry

-- Adding the items one by one never grows the table, and every add succeeds.
inductive Adds (options : Options) (hashing : HashFunction K) (allocates : Nat → Bool) : Table K V → List (K × V) → Table K V → Prop where
  | nil : Adds options hashing allocates t [] t
  | cons : ¬ Grows options t → add options hashing allocates nesting t key value = .ok (slot,next) → Stays t next →
      Adds options hashing allocates next items final → Adds options hashing allocates t ((key,value) :: items) final

-- A reservation for n items holds for any n items.
def Reserves (options : Options) (hashing : HashFunction K) (allocates : Nat → Bool) (t : Table K V) (n : Nat) : Prop :=
  ∃ reserved, ensureHasSpaceFor options hashing allocates t n = .ok reserved ∧
    ∀ items : List (K × V), items.length = n → ∃ final, Adds options hashing allocates reserved items final

-- The counters are those of the slots.
structure Counted (t : Table K V) : Prop where
  sized : Sized t.entries
  filled : t.slotsFilled = t.entries.countP Entry.filled
  counted : t.count = t.entries.countP Entry.live

variable {options : Options} {hashing : HashFunction K} {allocates : Nat → Bool} {t : Table K V}

omit [BEq K] [Inhabited K] [Inhabited V] in
theorem Counted.fewer (counted : Counted t) : t.count ≤ t.slotsFilled := by
  rw [counted.filled,counted.counted]
  exact live_le_filled t.entries

omit [BEq K] [Inhabited K] [Inhabited V] in
theorem probe_stops (entries : List (Entry K V)) (mask : UInt32) (stops : Entry K V → Bool) (fuel index : Nat)
    (increment : UInt32) (found : probe entries mask stops fuel index increment = .ok (slot,entry)) :
    entries[slot]? = some entry ∧ stops entry = true := by
  induction fuel generalizing index increment with
  | zero => cases found
  | succ fuel ih =>
      unfold probe at found
      cases there : entries[index]? with
      | none =>
          rw [there] at found
          cases found
      | some other =>
          rw [there] at found
          dsimp only at found
          by_cases stopped : stops other = true
          · rw [if_pos stopped] at found
            cases found
            exact ⟨there,stopped⟩
          · rw [if_neg stopped] at found
            exact ih _ _ found

omit [BEq K] [Inhabited K] [Inhabited V] in
theorem Stays.refl (t : Table K V) : Stays t t := ⟨rfl,fun _ _ there _ => there⟩

omit [Inhabited K] [Inhabited V] in
theorem insert_cases (inserted : insert options hashing t key value = .ok (slot,t')) :
    t.slotsFilled < t.entries.length ∧ ∃ entry,
      t.entries[slot]? = some entry ∧
      (entry.hash == emptyHash || (options.reuseTombstones && entry.hash == tombstoneHash)) = true ∧
      t' = {
        count := t.count + 1
        slotsFilled := (if entry.hash == emptyHash then t.slotsFilled else t.slotsFilled - 1) + 1
        entries := t.entries.set slot ⟨hashOf hashing key,key,value⟩} := by
  unfold HashTable.insert at inserted
  by_cases room : t.slotsFilled < t.entries.length
  · rw [if_pos room] at inserted
    cases probed : t.probeFor hashing key fun entry =>
        entry.hash == emptyHash || (options.reuseTombstones && entry.hash == tombstoneHash) with
    | error failure =>
        rw [probed] at inserted
        cases inserted
    | ok found =>
        obtain ⟨index,entry⟩ := found
        rw [probed] at inserted
        cases inserted
        obtain ⟨there,stopped⟩ := probe_stops _ _ _ _ _ _ probed
        exact ⟨room,entry,there,stopped,rfl⟩
  · rw [if_neg room] at inserted
    cases inserted

-- A slot that is not live takes a new entry.
omit [Inhabited K] [Inhabited V] in
theorem Counted.insert (counted : Counted t) (inserted : insert options hashing t key value = .ok (slot,t')) :
    Counted t' ∧ Stays t t' ∧ t'.count = t.count + 1 ∧ t'.slotsFilled ≤ t.slotsFilled + 1 := by
  obtain ⟨room,entry,there,stopped,rfl⟩ := insert_cases inserted
  have dead : entry.live = false := by
    simp only [Bool.or_eq_true,Bool.and_eq_true,beq_iff_eq] at stopped
    rcases stopped with empty | ⟨_,buried⟩
    · rw [Entry.live,empty]
      decide
    · rw [Entry.live,buried]
      decide
  have alive : Entry.live (⟨hashOf hashing key,key,value⟩ : Entry K V) = true := by
    rw [Entry.live,decide_eq_true_eq]
    exact hashOf_valid key
  have filled_more := countP_set there Entry.filled ⟨hashOf hashing key,key,value⟩
  have live_more := countP_set there Entry.live ⟨hashOf hashing key,key,value⟩
  rw [if_pos (live_filled alive)] at filled_more
  rw [if_pos alive,if_neg (by rw [dead]; decide)] at live_more
  have filled := counted.filled
  have live := counted.counted
  refine ⟨⟨counted.sized.congr List.length_set,?_,?_⟩,⟨List.length_set,?_⟩,rfl,?_⟩
  · show (if entry.hash == emptyHash then t.slotsFilled else t.slotsFilled - 1) + 1 =
      (t.entries.set slot ⟨hashOf hashing key,key,value⟩).countP Entry.filled
    by_cases empty : entry.hash = emptyHash
    · have hollow : entry.filled = false := by simp [Entry.filled,empty]
      rw [if_neg (by rw [hollow]; decide)] at filled_more
      rw [if_pos (by rw [empty]; decide)]
      omega
    · have taken : entry.filled = true := by simpa [Entry.filled] using empty
      have positive : 0 < t.entries.countP Entry.filled :=
        List.countP_pos_iff.mpr ⟨entry,List.mem_of_getElem? there,taken⟩
      rw [if_pos taken] at filled_more
      rw [if_neg (by simpa using empty)]
      omega
  · show t.count + 1 = (t.entries.set slot ⟨hashOf hashing key,key,value⟩).countP Entry.live
    omega
  · intro other kept known alive
    show (t.entries.set slot _)[other]? = some kept
    rw [List.getElem?_set_ne]
    · exact known
    · rintro rfl
      rw [there] at known
      cases known
      rw [dead] at alive
      cases alive
  · show (if entry.hash == emptyHash then t.slotsFilled else t.slotsFilled - 1) + 1 ≤ _
    split <;> omega

-- Where a slot is empty the probe finds one.
omit [Inhabited K] [Inhabited V] in
theorem Counted.insert_succeeds (counted : Counted t) (room : t.slotsFilled < t.entries.length) (key : K) (value : V) :
    ∃ slot t', HashTable.insert options hashing t key value = .ok (slot,t') := by
  have hollow := room
  rw [counted.filled,List.countP_lt_length_iff] at hollow
  obtain ⟨empty,member,unfilled⟩ := hollow
  have stops : (empty.hash == emptyHash || (options.reuseTombstones && empty.hash == tombstoneHash)) = true := by
    have blank : empty.hash = emptyHash := by simpa [Entry.filled] using unfilled
    rw [blank]
    rfl
  obtain ⟨j,entry,_,_,_,found⟩ := @probe_first K V t counted.sized
    (fun entry => entry.hash == emptyHash || (options.reuseTombstones && entry.hash == tombstoneHash))
    (hashOf hashing key) ⟨empty,member,stops⟩
  have probed : t.probeFor hashing key (fun entry =>
      entry.hash == emptyHash || (options.reuseTombstones && entry.hash == tombstoneHash)) =
        .ok (position (hashOf hashing key) t.entries.length j,entry) := found
  unfold HashTable.insert
  rw [if_pos room,probed]
  exact ⟨_,_,rfl⟩


theorem add_cases (added : add options hashing allocates (depth+1) t key value = .ok (slot,t')) :
    (¬ Grows options t ∧ insert options hashing t key value = .ok (slot,t')) ∨
      (Grows options t ∧ ∃ grown,
        rehash allocates (add options hashing allocates depth) t (expansion options t) = .ok grown ∧
        insert options hashing grown key value = .ok (slot,t')) := by
  unfold add at added
  by_cases grows : (t.slotsFilled+1) * 100 ≥ t.entries.length * options.loadFactorPercent
  · rw [if_pos grows] at added
    cases grown : rehash allocates (add options hashing allocates depth) t (expansion options t) with
    | error failure =>
        rw [grown] at added
        cases added
    | ok next =>
        rw [grown] at added
        exact .inr ⟨grows,next,rfl,added⟩
  · rw [if_neg grows] at added
    exact .inl ⟨grows,added⟩

theorem add_room (stays : ¬ Grows options t) (depth : Nat) (key : K) (value : V) :
    add options hashing allocates (depth+1) t key value = insert options hashing t key value := by
  have small : ¬ (t.slotsFilled + 1) * 100 ≥ t.entries.length * options.loadFactorPercent := stays
  unfold add
  rw [if_neg small]
  rfl

-- Slots for the entries are granted, and each is added to the new slots.
theorem rehash_cases {add : Table K V → K → V → Except Failure (Nat × Table K V)}
    (rehashed : rehash allocates add t newSlotCount = .ok t') :
    allocates (nextPowerOfTwo (max newSlotCount minSize)) = true ∧
      t.entries.foldlM (rehashEntry add)
        ⟨0,0,.replicate (nextPowerOfTwo (max newSlotCount minSize)) ⟨emptyHash,default,default⟩⟩ = .ok t' := by
  unfold rehash resizeEntries at rehashed
  rw [Nat.max_assoc,Nat.max_self] at rehashed
  by_cases granted : allocates (nextPowerOfTwo (max newSlotCount minSize)) = true
  · rw [if_pos granted] at rehashed
    exact ⟨granted,rehashed⟩
  · rw [if_neg granted] at rehashed
    cases rehashed

theorem rehash_granted {add : Table K V → K → V → Except Failure (Nat × Table K V)}
    (granted : allocates (nextPowerOfTwo (max newSlotCount minSize)) = true) :
    rehash allocates add t newSlotCount = t.entries.foldlM (rehashEntry add)
      ⟨0,0,.replicate (nextPowerOfTwo (max newSlotCount minSize)) ⟨emptyHash,default,default⟩⟩ := by
  unfold rehash resizeEntries
  rw [Nat.max_assoc,Nat.max_self,if_pos granted]
  rfl

-- The fresh slots of an expansion.
theorem fresh_counted (newSlotCount : Nat) (limits : ∀ n, allocates n = true → n ≤ 2^32)
    (granted : allocates (nextPowerOfTwo (max newSlotCount minSize)) = true) :
    Counted (⟨0,0,.replicate (nextPowerOfTwo (max newSlotCount minSize)) ⟨emptyHash,default,default⟩⟩ : Table K V) := by
  obtain ⟨k,low,high,size⟩ := nextPowerOfTwo_sized (max newSlotCount minSize)
    (Nat.le_max_right newSlotCount minSize) (limits _ granted)
  refine ⟨⟨k,low,high,by rw [List.length_replicate,size]⟩,?_,?_⟩
  · show 0 = List.countP Entry.filled (List.replicate _ _)
    rw [List.countP_replicate]
    rfl
  · show 0 = List.countP Entry.live (List.replicate _ _)
    rw [List.countP_replicate]
    rfl

section Rehash
variable {add : Table K V → K → V → Except Failure (Nat × Table K V)}

omit [BEq K] [Inhabited K] [Inhabited V] in
theorem rehash_loop_counted
    (keep : ∀ s key value slot s', Counted s → add s key value = .ok (slot,s') → Counted s' ∧ s'.count = s.count + 1)
    (entries : List (Entry K V)) (counted : Counted s) (done : entries.foldlM (rehashEntry add) s = .ok s') :
    Counted s' ∧ s'.count = s.count + entries.countP Entry.live := by
  induction entries generalizing s with
  | nil =>
      cases done
      exact ⟨counted,rfl⟩
  | cons entry entries ih =>
      rw [List.foldlM_cons] at done
      unfold rehashEntry at done
      by_cases live : entry.live = true
      · rw [if_pos (by rw [Entry.live,decide_eq_true_eq] at live; exact live)] at done
        rw [List.countP_cons_of_pos live]
        cases added : add s entry.key entry.value with
        | error failure =>
            rw [added] at done
            cases done
        | ok result =>
            obtain ⟨slot,next⟩ := result
            rw [added] at done
            obtain ⟨kept,more⟩ := keep s _ _ slot next counted added
            obtain ⟨ends,count⟩ := ih kept done
            exact ⟨ends,by omega⟩
      · rw [if_neg (by rw [Entry.live,decide_eq_true_eq] at live; exact live)] at done
        rw [List.countP_cons_of_neg live]
        exact ih counted done

theorem rehash_counted (limits : ∀ n, allocates n = true → n ≤ 2^32)
    (keep : ∀ s key value slot s', Counted s → add s key value = .ok (slot,s') → Counted s' ∧ s'.count = s.count + 1)
    (counted : Counted t) (rehashed : rehash allocates add t newSlotCount = .ok t') :
    Counted t' ∧ t'.count = t.count := by
  obtain ⟨granted,done⟩ := rehash_cases rehashed
  obtain ⟨ends,count⟩ := rehash_loop_counted keep t.entries (fresh_counted _ limits granted) done
  refine ⟨ends,?_⟩
  rw [counted.counted,count]
  exact Nat.zero_add _

end Rehash

theorem Counted.add (limits : ∀ n, allocates n = true → n ≤ 2^32) (depth : Nat) (counted : Counted t)
    (added : add options hashing allocates depth t key value = .ok (slot,t')) :
    Counted t' ∧ t'.count = t.count + 1 := by
  induction depth generalizing t key value slot t' with
  | zero => cases added
  | succ depth ih =>
      rcases add_cases added with ⟨_,inserted⟩ | ⟨_,grown,rehashed,inserted⟩
      · obtain ⟨kept,_,count,_⟩ := counted.insert inserted
        exact ⟨kept,count⟩
      · obtain ⟨wider,same⟩ := rehash_counted limits (fun _ _ _ _ _ => ih) counted rehashed
        obtain ⟨kept,_,count,_⟩ := wider.insert inserted
        exact ⟨kept,by omega⟩

-- Where the new slots hold all live entries below the load factor, none of the adds
-- of the expansion grows the table again.
theorem rehash_fits (options : Options) (hashing : HashFunction K) (allocates : Nat → Bool)
    (entries : List (Entry K V)) (counted : Counted s) (packed : s.slotsFilled = s.count)
    (load : (s.count + entries.countP Entry.live) * 100 < s.entries.length * options.loadFactorPercent) (depth : Nat) :
    ∃ s', entries.foldlM (rehashEntry (HashTable.add options hashing allocates (depth+1))) s = .ok s' ∧ Counted s' ∧
      s'.slotsFilled = s'.count ∧ s'.entries.length = s.entries.length := by
  have factor : s.entries.length * options.loadFactorPercent ≤ s.entries.length * 99 :=
    Nat.mul_le_mul_left _ (Nat.le_of_lt_succ options.below)
  induction entries generalizing s with
  | nil => exact ⟨s,rfl,counted,packed,rfl⟩
  | cons entry entries ih =>
      rw [List.foldlM_cons]
      unfold rehashEntry
      by_cases live : entry.live = true
      · rw [if_pos (by rw [Entry.live,decide_eq_true_eq] at live; exact live)]
        rw [List.countP_cons_of_pos live] at load
        have stays : ¬ Grows options s := by
          unfold Grows
          omega
        obtain ⟨slot,next,inserted⟩ : ∃ slot next, insert options hashing s entry.key entry.value = .ok (slot,next) :=
          counted.insert_succeeds (by omega) entry.key entry.value
        obtain ⟨kept,⟨length,_⟩,count,slots⟩ := counted.insert inserted
        have fewer := kept.fewer
        rw [add_room stays,inserted]
        obtain ⟨s',done,ends,equal,size⟩ := ih kept (by omega) (by rw [length]; omega) (by rw [length]; exact factor)
        exact ⟨s',done,ends,equal,size.trans length⟩
      · rw [if_neg (by rw [Entry.live,decide_eq_true_eq] at live; exact live)]
        rw [List.countP_cons_of_neg live] at load
        exact ih counted packed load factor


theorem ensure_counted (limits : ∀ n, allocates n = true → n ≤ 2^32) (counted : Counted t)
    (ensured : ensureHasSpaceFor options hashing allocates t itemCount = .ok t') :
    Counted t' ∧ t'.count = t.count := by
  unfold ensureHasSpaceFor at ensured
  split at ensured
  · cases ensured
    exact ⟨counted,rfl⟩
  · cases rounded : next_power_of_two ((toS64 (toS64 (t.count + itemCount) * 100)).tdiv options.loadFactorPercent) with
    | error failure =>
        rw [rounded] at ensured
        cases ensured
    | ok newSlotCount =>
        rw [rounded] at ensured
        unfold Except.bind expandTo at ensured
        dsimp only at ensured
        split at ensured
        · exact rehash_counted limits (fun _ _ _ _ _ kept added => kept.add limits _ added) counted ensured
        · cases ensured

omit [Inhabited K] [Inhabited V] in
theorem find_slot (found : findEntry hashing t key = .ok (some (slot,entry))) :
    t.entries[slot]? = some entry ∧ entry.live = true := by
  unfold findEntry at found
  cases probed : t.probeFor hashing key fun entry =>
      entry.hash == emptyHash || (entry.hash == hashOf hashing key && entry.key == key) with
  | error failure =>
      simp only [probed] at found
      cases found
  | ok result =>
      obtain ⟨index,other⟩ := result
      simp only [probed] at found
      obtain ⟨there,stopped⟩ := probe_stops _ _ _ _ _ _ probed
      by_cases empty : other.hash = emptyHash
      · have none_found : (Except.ok none : Except Failure (Option (Nat × Entry K V))) = .ok (some (slot,entry)) := by
          rw [← found]
          simp [empty]
        cases none_found
      · have same : (Except.ok (some (index,other)) : Except Failure (Option (Nat × Entry K V))) =
            .ok (some (slot,entry)) := by
          rw [← found]
          simp [empty]
        cases same
        refine ⟨there,?_⟩
        have hash : entry.hash = hashOf hashing key := by
          simp only [Bool.or_eq_true,Bool.and_eq_true,beq_iff_eq,empty,false_or] at stopped
          exact stopped.1
        rw [Entry.live,hash,decide_eq_true_eq]
        exact hashOf_valid key

omit [BEq K] [Inhabited K] [Inhabited V] in
-- A live entry gets another value, or is buried.
theorem Counted.rewrite (counted : Counted t) (there : t.entries[slot]? = some entry) (live : entry.live = true)
    (new : Entry K V) (filled : new.filled = true) (count : Nat)
    (counts : count + (if new.live then 0 else 1) = t.count) :
    Counted ⟨count,t.slotsFilled,t.entries.set slot new⟩ := by
  have filled_same := countP_set there Entry.filled new
  have live_change := countP_set there Entry.live new
  rw [if_pos filled,if_pos (live_filled live)] at filled_same
  rw [if_pos live] at live_change
  have was := counted.counted
  refine ⟨counted.sized.congr List.length_set,?_,?_⟩
  · show t.slotsFilled = (t.entries.set slot new).countP Entry.filled
    rw [counted.filled]
    omega
  · show count = (t.entries.set slot new).countP Entry.live
    split at counts <;> simp_all <;> omega

omit [BEq K] [Inhabited K] [Inhabited V] in
theorem Counted.reset (counted : Counted t) : Counted (HashTable.reset t) := by
  have hollow : ∀ entry ∈ (HashTable.reset t).entries, entry.hash = emptyHash := by
    intro entry member
    obtain ⟨old,_,rfl⟩ := List.mem_map.mp member
    rfl
  refine ⟨counted.sized.congr (List.length_map _),?_,?_⟩
  · exact (List.countP_eq_zero.mpr fun entry member => by simp [Entry.filled,hollow entry member]).symm
  · refine (List.countP_eq_zero.mpr fun entry member => ?_).symm
    rw [Entry.live,hollow entry member]
    decide

-- The counters agree with the slots in every table that the calls make.
theorem reachable_counted (backing : Backing) (reachable : Reachable options hashing backing t) : Counted t := by
  induction reachable with
  | construct constructed =>
      unfold HashTable.construct resizeEntries at constructed
      dsimp only at constructed
      split at constructed
      · rename_i granted
        cases constructed
        exact fresh_counted _ backing.limits granted
      · cases constructed
  | add _ added ih => exact (ih.add backing.limits _ added).1
  | set reached called ih =>
      unfold HashTable.set at called
      rename_i t key value slot t'
      cases found : findEntry hashing t key with
      | error failure =>
          rw [found] at called
          cases called
      | ok place =>
          rw [found] at called
          cases place with
          | none => exact (ih.add backing.limits _ called).1
          | some place =>
              cases called
              obtain ⟨there,live⟩ := find_slot found
              have alive : Entry.live {place.2 with value := value} = true := live
              exact ih.rewrite there live _ (live_filled alive) _ (by rw [if_pos alive]; rfl)
  | remove reached called ih =>
      rename_i t key result t'
      unfold HashTable.remove at called
      split at called
      · cases called
        exact ih
      · cases found : findEntry hashing t key with
        | error failure =>
            simp only [found] at called
            cases called
        | ok place =>
            simp only [found] at called
            cases place with
            | none =>
                cases called
                exact ih
            | some place =>
                cases called
                obtain ⟨there,live⟩ := find_slot found
                have buried := bury_dead place.2
                have some_live : 0 < t.entries.countP Entry.live :=
                  List.countP_pos_iff.mpr ⟨place.2,List.mem_of_getElem? there,live⟩
                have count := ih.counted
                exact ih.rewrite there live _ rfl _ (by rw [buried,if_neg Bool.false_ne_true]; omega)
  | reset _ ih => exact ih.reset
  | expand _ _ rehashed ih =>
      exact (rehash_counted backing.limits (fun _ _ _ _ _ kept added => kept.add backing.limits _ added) ih rehashed).1
  | ensure _ ensured ih => exact (ensure_counted backing.limits ih ensured).1

-- Adds that never grow the table end below its load factor.
theorem adds_bound (counted : Counted t) (adds : Adds options hashing allocates t items final) (some_items : items ≠ []) :
    (t.count + items.length) * 100 < t.entries.length * options.loadFactorPercent := by
  induction adds with
  | nil => exact absurd rfl some_items
  | cons stays added kept rest ih =>
      rename_i t key value slot next items final
      rw [nesting,add_room stays 1] at added
      obtain ⟨grown,_,count,_⟩ := counted.insert added
      have fewer := counted.fewer
      unfold Grows at stays
      cases items with
      | nil =>
          show (t.count + 1) * 100 < _
          omega
      | cons item items =>
          have bound := ih grown (List.cons_ne_nil _ _)
          rw [kept.1,count] at bound
          rw [List.length_cons]
          omega

-- Below the load factor of the last add there is room for all of them.
theorem adds_room (counted : Counted t) (items : List (K × V))
    (load : (t.slotsFilled + items.length) * 100 < t.entries.length * options.loadFactorPercent) :
    ∃ final, Adds options hashing allocates t items final := by
  have factor : t.entries.length * options.loadFactorPercent ≤ t.entries.length * 99 :=
    Nat.mul_le_mul_left _ (Nat.le_of_lt_succ options.below)
  induction items generalizing t with
  | nil => exact ⟨t,.nil⟩
  | cons item items ih =>
      obtain ⟨key,value⟩ := item
      rw [List.length_cons] at load
      have stays : ¬ Grows options t := by
        unfold Grows
        omega
      obtain ⟨slot,next,inserted⟩ : ∃ slot next, insert options hashing t key value = .ok (slot,next) :=
        counted.insert_succeeds (by omega) key value
      obtain ⟨kept,same,count,slots⟩ := counted.insert inserted
      obtain ⟨final,rest⟩ := ih kept (by rw [same.1]; omega) (by rw [same.1]; exact factor)
      exact ⟨final,.cons stays (by rw [nesting,add_room stays 1]; exact inserted) same rest⟩


-- The slots of a table that ensure_has_space_for makes.
def reservedSlots (options : Options) (t : Table K V) (n : Nat) : Nat :=
  max (nextPowerOfTwo ((t.count + n) * 100 / options.loadFactorPercent)) minSize

theorem nextPowerOfTwo_reaches (value : Nat) (bound : value ≤ 4611686018427387904) :
    ∃ k ≤ 62, nextPowerOfTwo value = 2^k ∧ value ≤ 2^k := by
  obtain ⟨j,result,_,below,reached,least⟩ := nextPowerOfTwo_go value 63 0
  have small : j ≤ 62 := by
    by_contra large
    rcases least with zero | least
    · omega
    · have grows : (2:Nat)^62 ≤ 2^(j-1) := Nat.pow_le_pow_right (by decide) (by omega)
      omega
  refine ⟨j,small,?_,?_⟩
  · rw [nextPowerOfTwo,show (1 : Nat) = 2^0 from rfl,result]
  · rcases reached with reached | reached
    · exact reached
    · omega

theorem next_power_of_two_small (value : Nat) (nonzero : value ≠ 0) (bound : value ≤ 4611686018427387904) :
    next_power_of_two value = .ok (nextPowerOfTwo value) := by
  unfold next_power_of_two
  rw [if_neg (by omega),if_neg (by omega)]
  rfl

-- Where neither sum leaves s64 the reservation keeps the table or expands it to
-- the slots that it computes.
theorem ensure_cases (counted : Counted t) (n : Nat) (positive : 0 < n)
    (small : (t.count + n) * 100 < 425201762304)
    (full : ¬ (t.slotsFilled + n) * 100 < t.entries.length * options.loadFactorPercent) :
    ensureHasSpaceFor options hashing allocates t n =
      rehash allocates (add options hashing allocates nesting) t
        (nextPowerOfTwo ((t.count + n) * 100 / options.loadFactorPercent)) := by
  have slots : t.slotsFilled ≤ 4294967296 := by
    rw [counted.filled]
    exact Nat.le_trans List.countP_le_length counted.sized.bounds.2
  have filled_sum : toS64 (toS64 ((t.slotsFilled : Int) + n) * 100) = (((t.slotsFilled + n) * 100 : Nat) : Int) := by
    unfold toS64
    omega
  have count_sum : toS64 (toS64 ((t.count : Int) + n) * 100) = (((t.count + n) * 100 : Nat) : Int) := by
    unfold toS64
    omega
  have quotient_positive : (t.count + n) * 100 / options.loadFactorPercent ≠ 0 := by
    have least : 1 ≤ (t.count + n) * 100 / options.loadFactorPercent := by
      rw [Nat.le_div_iff_mul_le options.positive]
      have below := options.below
      omega
    omega
  have quotient_small : (t.count + n) * 100 / options.loadFactorPercent ≤ (t.count + n) * 100 := Nat.div_le_self _ _
  obtain ⟨k,_,power,_⟩ := nextPowerOfTwo_reaches ((t.count + n) * 100 / options.loadFactorPercent) (by omega)
  have expands : isPowerOfTwo (nextPowerOfTwo ((t.count + n) * 100 / options.loadFactorPercent) : Nat) = true :=
    isPowerOfTwo_exact.mpr ⟨k,by rw [power]⟩
  unfold ensureHasSpaceFor
  rw [filled_sum,count_sum,if_neg (by exact_mod_cast full),Int.tdiv_eq_ediv_of_nonneg (Int.natCast_nonneg _),
    ← Int.natCast_ediv,next_power_of_two_small _ quotient_positive (by omega)]
  unfold Except.bind expandTo
  dsimp only
  rw [if_pos expands,Int.toNat_natCast]

theorem reserved_slots (options : Options) (n : Nat) (small : (t.count + n) * 100 < 425201762304) :
    nextPowerOfTwo (max (nextPowerOfTwo ((t.count + n) * 100 / options.loadFactorPercent)) minSize) =
        reservedSlots options t n ∧
      ((t.count + n) * 100 < (reservedSlots options t n + 1) * options.loadFactorPercent) := by
  have quotient_small : (t.count + n) * 100 / options.loadFactorPercent ≤ (t.count + n) * 100 := Nat.div_le_self _ _
  obtain ⟨k,limit,power,enough⟩ := nextPowerOfTwo_reaches ((t.count + n) * 100 / options.loadFactorPercent) (by omega)
  constructor
  · unfold reservedSlots
    rcases Nat.le_total (nextPowerOfTwo ((t.count + n) * 100 / options.loadFactorPercent)) minSize with low | high
    · rw [Nat.max_eq_right low]
      rfl
    · rw [Nat.max_eq_left high,power,nextPowerOfTwo_pow (by omega)]
  · have reached : (t.count + n) * 100 / options.loadFactorPercent < reservedSlots options t n + 1 := by
      unfold reservedSlots
      rw [power]
      omega
    exact (Nat.div_lt_iff_lt_mul options.positive).mp reached

-- The table after an expansion to the reserved slots.
theorem reserve_expands (options : Options) (hashing : HashFunction K) (limits : ∀ n, allocates n = true → n ≤ 2^32)
    (counted : Counted t) (n : Nat) (positive : 0 < n)
    (small : (t.count + n) * 100 < 425201762304)
    (full : ¬ (t.slotsFilled + n) * 100 < t.entries.length * options.loadFactorPercent)
    (granted : allocates (reservedSlots options t n) = true) :
    ∃ reserved, ensureHasSpaceFor options hashing allocates t n = .ok reserved ∧ Counted reserved ∧
      reserved.count = t.count ∧ reserved.slotsFilled = t.count ∧
      reserved.entries.length = reservedSlots options t n := by
  obtain ⟨slots,enough⟩ := reserved_slots options n small
  have fresh := fresh_counted (K:=K) (V:=V)
    (nextPowerOfTwo ((t.count + n) * 100 / options.loadFactorPercent)) limits (by rw [slots]; exact granted)
  have load : (0 + t.entries.countP Entry.live) * 100 <
      (List.replicate (nextPowerOfTwo (max (nextPowerOfTwo ((t.count + n) * 100 / options.loadFactorPercent)) minSize))
        (⟨emptyHash,default,default⟩ : Entry K V)).length * options.loadFactorPercent := by
    rw [List.length_replicate,slots,← counted.counted]
    have below := options.below
    have product : (reservedSlots options t n + 1) * options.loadFactorPercent =
        reservedSlots options t n * options.loadFactorPercent + options.loadFactorPercent := Nat.succ_mul _ _
    omega
  obtain ⟨reserved,done,ends,packed,length⟩ := rehash_fits options hashing allocates t.entries fresh rfl load 1
  have ensured : ensureHasSpaceFor options hashing allocates t n = .ok reserved := by
    rw [ensure_cases counted n positive small full,rehash_granted (by rw [slots]; exact granted)]
    exact done
  obtain ⟨_,count⟩ := ensure_counted limits counted ensured
  refine ⟨reserved,ensured,ends,count,by omega,?_⟩
  rw [length]
  show (List.replicate _ _).length = _
  rw [List.length_replicate,slots]

theorem sized_load (options : Options) (counted : Counted t) : t.entries.length * options.loadFactorPercent ≤ 425201762304 := by
  calc t.entries.length * options.loadFactorPercent ≤ 4294967296 * 99 :=
        Nat.mul_le_mul counted.sized.bounds.2 (Nat.le_of_lt_succ options.below)
    _ = 425201762304 := by decide

-- Rounding the quotient down first lets a power of two through that is too small.
theorem reserves_counted (limits : ∀ n, allocates n = true → n ≤ 2^32) (counted : Counted t) (n : Nat) (positive : 0 < n)
    (word : n < 9223372036854775808) :
    Reserves options hashing allocates t n ↔
      (t.slotsFilled + n) * 100 < t.entries.length * options.loadFactorPercent ∨
        (allocates (reservedSlots options t n) = true ∧
          (t.count + n) * 100 < reservedSlots options t n * options.loadFactorPercent) := by
  constructor
  · rintro ⟨reserved,ensured,holds⟩
    obtain ⟨final,adds⟩ := holds (List.replicate n (default,default)) List.length_replicate
    obtain ⟨kept,count⟩ := ensure_counted limits counted ensured
    have bound := adds_bound kept adds (by
      intro none_left
      have length := congrArg List.length none_left
      rw [List.length_replicate,List.length_nil] at length
      omega)
    rw [List.length_replicate,count] at bound
    have small : (t.count + n) * 100 < 425201762304 := Nat.lt_of_lt_of_le bound (sized_load options kept)
    by_cases full : (t.slotsFilled + n) * 100 < t.entries.length * options.loadFactorPercent
    · exact .inl full
    · right
      obtain ⟨slots,_⟩ := reserved_slots options n small
      have rehashed := ensured
      rw [ensure_cases counted n positive small full] at rehashed
      have granted := (rehash_cases rehashed).1
      rw [slots] at granted
      obtain ⟨expanded,again,_,_,_,length⟩ :=
        reserve_expands options hashing limits counted n positive small full granted
      rw [ensured] at again
      cases again
      rw [length] at bound
      exact ⟨granted,bound⟩
  · intro enough
    by_cases full : (t.slotsFilled + n) * 100 < t.entries.length * options.loadFactorPercent
    · have load := sized_load options counted
      have filled_sum : toS64 (toS64 ((t.slotsFilled : Int) + n) * 100) = (((t.slotsFilled + n) * 100 : Nat) : Int) := by
        unfold toS64
        omega
      refine ⟨t,?_,fun items length => adds_room counted items (by rw [length]; exact full)⟩
      unfold ensureHasSpaceFor
      rw [filled_sum]
      exact if_pos (by exact_mod_cast full)
    · rcases enough with room | ⟨granted,room⟩
      · exact absurd room full
      · have limit := limits _ granted
        have small : (t.count + n) * 100 < 425201762304 := by
          calc (t.count + n) * 100 < reservedSlots options t n * options.loadFactorPercent := room
            _ ≤ 4294967296 * 99 := Nat.mul_le_mul limit (Nat.le_of_lt_succ options.below)
            _ = 425201762304 := by decide
        obtain ⟨reserved,ensured,kept,count,slots,length⟩ :=
          reserve_expands options hashing limits counted n positive small full granted
        refine ⟨reserved,ensured,fun items many => adds_room kept items ?_⟩
        rw [slots,many,length]
        exact room

-- In every reachable table a reservation is kept where the table has room already, or
-- where the items stay below the load of the slots it asks for.
theorem reserves_exact (options : Options) (hashing : HashFunction K) (backing : Backing)
    (t : {t : Table K V // Reachable options hashing backing t}) (n : {n : Nat // 0 < n ∧ n < 9223372036854775808}) :
    Reserves options hashing backing.allocates t.1 n.1 ↔
      (t.1.slotsFilled + n.1) * 100 < t.1.entries.length * options.loadFactorPercent ∨
        (backing.allocates (reservedSlots options t.1 n.1) = true ∧
          (t.1.count + n.1) * 100 < reservedSlots options t.1 n.1 * options.loadFactorPercent) :=
  reserves_counted backing.limits (reachable_counted backing t.2) n.1 n.2.1 n.2.2

-- 23 items fill 70 percent of 32 slots and more; 23 * 100 / 70 is 32.
def reservedBacking : Backing := ⟨fun n => decide (n ≤ 2^32),fun _ granted => of_decide_eq_true granted⟩

def emptyTable : Table UInt32 Nat := ⟨0,0,.replicate 32 ⟨0,0,0⟩⟩

theorem reservation_outgrown :
    Reachable ⟨70,true,by decide,by decide⟩ integralHashing reservedBacking emptyTable ∧
    ¬ Reserves ⟨70,true,by decide,by decide⟩ integralHashing reservedBacking.allocates emptyTable 23 := by
  have reachable : Reachable ⟨70,true,by decide,by decide⟩ integralHashing reservedBacking emptyTable :=
    @Reachable.construct _ _ _ _ _ _ _ _ 0 _ rfl
  refine ⟨reachable,fun reserves => ?_⟩
  rcases (reserves_counted reservedBacking.limits (reachable_counted reservedBacking reachable) 23
    (by decide) (by decide)).mp reserves with room | ⟨_,room⟩
  · exact absurd room (by decide)
  · exact absurd room (by decide)

end HashTable
