import Gameos.HashTableInvariant

namespace HashTable

variable {K V : Type} [BEq K] {options : Options} {hashing : Hashing K} {t : Table K V} {map map' : FiniteMap K V}
  {entry new : Entry K V} {key : K}

omit [BEq K] in
theorem live_around (before : List (Entry K V)) {after : List (Entry K V)} (live : entry.live = true) :
    Table.live ⟨count,slots,before ++ entry :: after⟩ =
      Table.live ⟨0,0,before⟩ ++ (entry.key,entry.value) :: Table.live ⟨0,0,after⟩ := by
  simp [Table.live,live]

omit [BEq K] in
theorem live_beside (before : List (Entry K V)) {after : List (Entry K V)} (dead : entry.live = false) :
    Table.live ⟨count,slots,before ++ entry :: after⟩ =
      Table.live ⟨0,0,before⟩ ++ Table.live ⟨0,0,after⟩ := by
  simp [Table.live,dead]

omit [BEq K] in
theorem bury_dead (entry : Entry K V) : Entry.live {entry with hash := tombstoneHash} = false := by
  show decide (firstValidHash ≤ tombstoneHash) = false
  decide

omit [BEq K] in
theorem countP_set {entries : List (Entry K V)} (there : entries[slot]? = some old) (p : Entry K V → Bool)
    (new : Entry K V) :
    (entries.set slot new).countP p + (if p old then 1 else 0) = entries.countP p + (if p new then 1 else 0) := by
  obtain ⟨before,after,was,becomes⟩ := set_splits there new
  rw [becomes,was]
  simp only [List.countP_append,List.countP_cons]
  omega

theorem Represents.distinct [EquivBEq K] (represents : Represents options hashing t map) :
    t.live.Pairwise fun a b => (a.1 == b.1) = false :=
  map.distinct.perm represents.content.symm fun {a b} apart => by rw [BEq.comm]; exact apart

theorem others_differ [EquivBEq K] {before after : List (K × V)}
    (distinct : (before ++ pair :: after).Pairwise fun a b => (a.1 == b.1) = false)
    (same : (pair.1 == key) = true) :
    (∀ other ∈ before, (other.1 == key) = false) ∧ ∀ other ∈ after, (other.1 == key) = false := by
  rw [List.pairwise_append,List.pairwise_cons] at distinct
  constructor
  · intro other inside
    rw [← Bool.not_eq_true]
    intro equal
    have apart := distinct.2.2 other inside pair List.mem_cons_self
    rw [BEq.trans equal (BEq.symm same)] at apart
    cases apart
  · intro other inside
    rw [← Bool.not_eq_true]
    intro equal
    have apart := distinct.2.1.1 other inside
    rw [BEq.trans same (BEq.symm equal)] at apart
    cases apart

-- What is left to show when one slot gets a new, filled entry.
theorem Represents.overwrite (represents : Represents options hashing t map)
    (filled : new.filled = true)
    (valid : new.live = true → new.hash = hashOf hashing new.key ∧ Path t.entries new.hash slot)
    (slots_exact : slots = (t.entries.set slot new).countP Entry.filled)
    (count_exact : count = (t.entries.set slot new).countP Entry.live)
    (room : slots < t.entries.length)
    (load : slots * 100 < 2 * (t.entries.length * options.loadFactorPercent))
    (content : (Table.live ⟨count,slots,t.entries.set slot new⟩).Perm map'.pairs) :
    Represents options hashing ⟨count,slots,t.entries.set slot new⟩ map' where
  sized := represents.sized.congr List.length_set
  filled := slots_exact
  counted := count_exact
  room := by rwa [List.length_set]
  load := by rwa [List.length_set]
  hashed := by
    intro entry member live
    rcases List.mem_or_eq_of_mem_set member with was | rfl
    · exact represents.hashed entry was live
    · exact (valid live).1
  paths := by
    intro i entry there live
    rcases getElem?_set_cases there with ⟨rfl,rfl⟩ | ⟨_,was⟩
    · exact (valid live).2.set entry filled i
    · exact (represents.paths i entry was live).set new filled slot
  content := content

-- set on a key that is there.
theorem Represents.replace [EquivBEq K] (represents : Represents options hashing t map)
    (there : t.entries[slot]? = some entry) (live : entry.live = true) (same : (entry.key == key) = true)
    (value : V) :
    Represents options hashing {t with entries := t.entries.set slot {entry with value := value}}
      (map.store key value) := by
  have path := represents.paths slot entry there live
  have hash := represents.hashed entry (List.mem_of_getElem? there) live
  have filled_same := countP_set there Entry.filled {entry with value := value}
  have live_same := countP_set there Entry.live {entry with value := value}
  have still : Entry.live {entry with value := value} = true := live
  rw [if_pos (live_filled live),if_pos (live_filled still)] at filled_same
  rw [if_pos live,if_pos still] at live_same
  refine represents.overwrite (live_filled live) (fun _ => ⟨hash,path⟩) ?_ ?_ represents.room represents.load ?_
  · rw [represents.filled]; omega
  · rw [represents.counted]; omega
  · obtain ⟨before,after,was,becomes⟩ := set_splits there {entry with value := value}
    have present : ∃ pair ∈ map.pairs, (pair.1 == key) = true :=
      ⟨(entry.key,entry.value),represents.content.mem_iff.mp
        (mem_live.mpr ⟨entry,List.mem_of_getElem? there,live,rfl⟩),same⟩
    have distinct := represents.distinct
    have content := represents.content.map (FiniteMap.replaceAt key value)
    rw [show t = ⟨t.count,t.slotsFilled,before ++ entry :: after⟩ by rw [← was],live_around _ live] at distinct content
    obtain ⟨fore,aft⟩ := others_differ distinct same
    rw [becomes,live_around _ still,FiniteMap.store,dif_pos present]
    rw [List.map_append,List.map_cons,show FiniteMap.replaceAt key value (entry.key,entry.value) = (entry.key,value) by
      rw [FiniteMap.replaceAt,if_pos same]] at content
    have fixed : ∀ pairs : List (K × V), (∀ other ∈ pairs, (other.1 == key) = false) →
        pairs.map (FiniteMap.replaceAt key value) = pairs := by
      intro pairs differ
      refine List.map_congr_left (g:=id) ?_ |>.trans (List.map_id _)
      intro other inside
      rw [FiniteMap.replaceAt,differ other inside]; rfl
    rwa [fixed _ fore,fixed _ aft] at content

-- remove of a key that is there.
theorem Represents.bury [EquivBEq K] (represents : Represents options hashing t map)
    (there : t.entries[slot]? = some entry) (live : entry.live = true) (same : (entry.key == key) = true) :
    Represents options hashing
      {t with count := t.count - 1,entries := t.entries.set slot {entry with hash := tombstoneHash}}
      (map.discard key) := by
  have filled_same := countP_set there Entry.filled {entry with hash := tombstoneHash}
  have live_less := countP_set there Entry.live {entry with hash := tombstoneHash}
  rw [if_pos (live_filled live),if_pos (show Entry.filled _ = true from rfl)] at filled_same
  rw [if_pos live,bury_dead] at live_less
  simp only [Bool.false_eq_true,if_false] at live_less
  refine represents.overwrite rfl ?_ ?_ ?_ represents.room represents.load ?_
  · intro alive
    rw [bury_dead] at alive
    cases alive
  · rw [represents.filled]; omega
  · rw [represents.counted]; omega
  · obtain ⟨before,after,was,becomes⟩ := set_splits there {entry with hash := tombstoneHash}
    have distinct := represents.distinct
    have content := represents.content.filter fun pair => !(pair.1 == key)
    rw [show t = ⟨t.count,t.slotsFilled,before ++ entry :: after⟩ by rw [← was],live_around _ live] at distinct content
    obtain ⟨fore,aft⟩ := others_differ distinct same
    rw [becomes,live_beside _ (bury_dead entry)]
    have fixed : ∀ pairs : List (K × V), (∀ other ∈ pairs, (other.1 == key) = false) →
        (pairs.filter fun pair => !(pair.1 == key)) = pairs := by
      intro pairs differ
      rw [List.filter_eq_self]
      intro other inside
      rw [differ other inside]; rfl
    rw [List.filter_append,List.filter_cons_of_neg (by simp [same]),fixed _ fore,fixed _ aft] at content
    exact content

-- add of a key that is not there, where the load leaves a slot over.
theorem Represents.insert [EquivBEq K] (represents : Represents options hashing t map)
    (absent : map.lookup key = none) (value : V) (room : t.slotsFilled + 1 < t.entries.length)
    (load : (t.slotsFilled + 1) * 100 < 2 * (t.entries.length * options.loadFactorPercent)) :
    ∃ slot t', HashTable.insert options hashing t key value = .ok (slot,t') ∧
      Represents options hashing t' (map.store key value) ∧ t'.entries.length = t.entries.length ∧
      t'.slotsFilled ≤ t.slotsFilled + 1 := by
  obtain ⟨j,entry,there,stopped,passed,found⟩ := represents.probeFor key
    (fun entry => entry.hash == emptyHash || (options.reuseTombstones && entry.hash == tombstoneHash))
    (fun entry empty => by rw [Entry.filled,bne_eq_false_iff_eq] at empty; simp [empty])
  have path : Path t.entries (hashOf hashing key) (position (hashOf hashing key) t.entries.length j) := by
    refine ⟨j,rfl,?_⟩
    intro earlier before
    obtain ⟨other,here,goes⟩ := passed earlier before
    refine ⟨other,here,?_⟩
    rw [Bool.or_eq_false_iff] at goes
    rw [Entry.filled,bne,goes.1]; rfl
  have dead : entry.live = false := by
    simp only [Bool.or_eq_true,Bool.and_eq_true,beq_iff_eq] at stopped
    rcases stopped with empty | ⟨_,buried⟩
    · rw [Entry.live,empty]; decide
    · rw [Entry.live,buried]; decide
  have alive : Entry.live (⟨hashOf hashing key,key,value⟩ : Entry K V) = true := by
    rw [Entry.live,decide_eq_true_eq]; exact hashOf_valid key
  have filled_more := countP_set there Entry.filled ⟨hashOf hashing key,key,value⟩
  have live_more := countP_set there Entry.live ⟨hashOf hashing key,key,value⟩
  rw [if_pos (live_filled alive)] at filled_more
  rw [if_pos alive,if_neg (by rw [dead]; decide)] at live_more
  have exact_slots : (if entry.hash == emptyHash then t.slotsFilled else t.slotsFilled - 1) + 1 =
      (t.entries.set (position (hashOf hashing key) t.entries.length j) ⟨hashOf hashing key,key,value⟩).countP
        Entry.filled := by
    have filled := represents.filled
    by_cases empty : entry.hash = emptyHash
    · have hollow : entry.filled = false := by simp [Entry.filled,empty]
      rw [hollow] at filled_more
      simp only [empty,beq_self_eq_true,if_true]
      simp only [Bool.false_eq_true,if_false] at filled_more
      omega
    · have taken : entry.filled = true := by simpa [Entry.filled] using empty
      rw [taken] at filled_more
      have positive : 0 < t.entries.countP Entry.filled :=
        List.countP_pos_iff.mpr ⟨entry,List.mem_of_getElem? there,taken⟩
      simp only [beq_iff_eq,empty,if_false]
      simp only [if_true] at filled_more
      omega
  have bound : (if entry.hash == emptyHash then t.slotsFilled else t.slotsFilled - 1) + 1 ≤ t.slotsFilled + 1 := by
    split <;> omega
  refine ⟨position (hashOf hashing key) t.entries.length j,⟨t.count+1,_,t.entries.set (position (hashOf hashing key) t.entries.length j)
    ⟨hashOf hashing key,key,value⟩⟩,?_,?_,List.length_set,bound⟩
  · rw [HashTable.insert,if_pos represents.room,found]; rfl
  · refine represents.overwrite (live_filled alive) (fun _ => ⟨rfl,path⟩) exact_slots ?_ (by omega) (by omega) ?_
    · have counted := represents.counted
      omega
    · obtain ⟨before,after,was,becomes⟩ := set_splits there ⟨hashOf hashing key,key,value⟩
      have content := represents.content
      rw [show t = ⟨t.count,t.slotsFilled,before ++ entry :: after⟩ by rw [← was],live_beside _ dead] at content
      have missing : ¬ ∃ pair ∈ map.pairs, (pair.1 == key) = true := by
        rintro ⟨pair,member,same⟩
        have := map.lookup_none.mp absent pair member
        rw [same] at this
        cases this
      rw [becomes,live_around _ alive,FiniteMap.store,dif_neg missing]
      exact List.perm_middle.trans (content.cons _)

-- A table without filled slots is the empty map.
theorem Represents.of_hollow (sized : Sized t.entries)
    (hollow : ∀ entry ∈ t.entries, entry.filled = false ∧ entry.live = false)
    (counted : t.count = 0) (filled : t.slotsFilled = 0) : Represents options hashing t FiniteMap.empty where
  sized := sized
  filled := by
    rw [filled,List.countP_eq_zero.mpr fun entry member => by simp [(hollow entry member).1]]
  counted := by
    rw [counted,List.countP_eq_zero.mpr fun entry member => by simp [(hollow entry member).2]]
  room := by
    have bounds := sized.bounds
    omega
  load := by
    have bounds := sized.bounds
    have positive := Nat.mul_pos (show 0 < t.entries.length by omega) options.positive
    omega
  hashed entry member live := by rw [(hollow entry member).2] at live; cases live
  paths i entry there live := by
    rw [(hollow entry (List.mem_of_getElem? there)).2] at live; cases live
  content := by
    rw [Table.live,List.filter_eq_nil_iff.mpr fun entry member => by simp [(hollow entry member).2]]
    exact .nil

-- reset empties every slot.
theorem Represents.reset (represents : Represents options hashing t map) :
    Represents options hashing (reset t) FiniteMap.empty := by
  refine .of_hollow (represents.sized.congr (List.length_map _)) ?_ rfl rfl
  intro entry member
  obtain ⟨old,_,rfl⟩ := List.mem_map.mp member
  exact ⟨rfl,rfl⟩

end HashTable
