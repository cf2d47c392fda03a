import Gameos.HashTableProbes

namespace HashTable

variable {K V : Type} [BEq K] {options : Options} {hashing : Hashing K}

-- Every slot the probe for this hash passes before it comes to slot `i` is taken.
def Path (entries : List (Entry K V)) (hash : UInt32) (i : Nat) : Prop :=
  ∃ j, position hash entries.length j = i ∧
    ∀ earlier < j, ∃ entry, entries[position hash entries.length earlier]? = some entry ∧ entry.filled = true

structure Represents (options : Options) (hashing : Hashing K) (t : Table K V) (map : FiniteMap K V) : Prop where
  sized : Sized t.entries
  filled : t.slotsFilled = t.entries.countP Entry.filled
  counted : t.count = t.entries.countP Entry.live
  room : t.slotsFilled < t.entries.length
  load : t.slotsFilled * 100 < 2 * (t.entries.length * options.loadFactorPercent)
  hashed : ∀ entry ∈ t.entries, entry.live = true → entry.hash = hashOf hashing entry.key
  paths : ∀ i entry, t.entries[i]? = some entry → entry.live = true → Path t.entries entry.hash i
  content : t.live.Perm map.pairs

omit [BEq K] in
theorem live_filled {entry : Entry K V} (live : entry.live = true) : entry.filled = true := by
  rw [Entry.live,decide_eq_true_eq] at live
  rw [Entry.filled,bne_iff_ne]
  rintro empty
  rw [empty] at live
  exact absurd live (by decide)

omit [BEq K] in
theorem hashOf_valid {hashing : HashFunction K} (key : K) : firstValidHash ≤ hashOf hashing key := by
  rw [hashOf]
  simp only [firstValidHash,UInt32.lt_iff_toNat_lt,UInt32.le_iff_toNat_le]
  split
  · rw [UInt32.toNat_add,show (2 : UInt32).toNat = 2 from rfl] at *; omega
  · omega

theorem hashOf_agrees {one two : K} (same : (one == two) = true) : hashOf hashing one = hashOf hashing two := by
  rw [hashOf,hashOf,hashing.agrees same]

omit [BEq K] in
theorem mem_live {t : Table K V} :
    pair ∈ t.live ↔ ∃ entry ∈ t.entries, entry.live = true ∧ (entry.key,entry.value) = pair := by
  simp [Table.live,and_assoc]

omit [BEq K] in
theorem live_length (t : Table K V) : t.live.length = t.entries.countP Entry.live := by
  rw [Table.live,List.length_map,List.countP_eq_length_filter]

omit [BEq K] in
theorem live_le_filled (entries : List (Entry K V)) : entries.countP Entry.live ≤ entries.countP Entry.filled :=
  List.countP_mono_left fun _ _ => live_filled

-- A table that is not full has an empty slot, and a probe that stops there ends.
theorem Represents.has_empty (represents : Represents options hashing t map) :
    ∃ entry ∈ t.entries, entry.filled = false := by
  have room := represents.room
  rw [represents.filled,List.countP_lt_length_iff] at room
  obtain ⟨entry,member,empty⟩ := room
  exact ⟨entry,member,by simpa using empty⟩

theorem Represents.probeFor (represents : Represents options hashing t map) (key : K)
    (stops : Entry K V → Bool) (at_empty : ∀ entry : Entry K V, entry.filled = false → stops entry = true) :
    ∃ j entry, t.entries[position (hashOf hashing key) t.entries.length j]? = some entry ∧ stops entry = true ∧
      (∀ i < j, ∃ other, t.entries[position (hashOf hashing key) t.entries.length i]? = some other ∧
        stops other = false) ∧
      t.probeFor hashing key stops = .ok (position (hashOf hashing key) t.entries.length j,entry) := by
  obtain ⟨entry,member,empty⟩ := represents.has_empty
  obtain ⟨j,stop,there,stopped,passed,found⟩ :=
    probe_first represents.sized (hashOf hashing key) ⟨entry,member,at_empty entry empty⟩
  refine ⟨j,stop,there,stopped,passed,?_⟩
  unfold Table.probeFor
  exact found

-- find looks at every slot a live entry of the key could be in.
theorem Represents.findEntry [EquivBEq K] (represents : Represents options hashing t map) (key : K) :
    (∃ i entry, findEntry hashing t key = .ok (some (i,entry)) ∧ t.entries[i]? = some entry ∧
      entry.live = true ∧ (entry.key == key) = true) ∨
    (findEntry hashing t key = .ok none ∧ ∀ pair ∈ t.live, (pair.1 == key) = false) := by
  obtain ⟨j,entry,there,stopped,passed,found⟩ := represents.probeFor key
    (fun entry => entry.hash == emptyHash || (entry.hash == hashOf hashing key && entry.key == key))
    (fun entry empty => by rw [Entry.filled,bne_eq_false_iff_eq] at empty; simp [empty])
  by_cases empty : entry.hash = emptyHash
  · right
    refine ⟨by simp [HashTable.findEntry,found,empty],?_⟩
    rintro _ member
    obtain ⟨other,inside,live,rfl⟩ := mem_live.mp member
    rw [← Bool.not_eq_true]
    intro same
    obtain ⟨i,bound,at_i⟩ := List.mem_iff_getElem.mp inside
    have slot : t.entries[i]? = some other := by rw [List.getElem?_eq_getElem bound,at_i]
    obtain ⟨reached,ends,taken⟩ := represents.paths i other slot live
    rw [represents.hashed other inside live,hashOf_agrees same] at ends taken
    rcases Nat.lt_trichotomy reached j with before | equal | after
    · obtain ⟨stop,here,goes⟩ := passed reached before
      rw [ends,slot,Option.some.injEq] at here
      subst here
      have hash := represents.hashed other inside live
      rw [hashOf_agrees same] at hash
      simp [hash,same] at goes
    · subst equal
      rw [ends,slot,Option.some.injEq] at there
      subst there
      have := live_filled live
      simp [Entry.filled,empty] at this
    · obtain ⟨stop,here,filled⟩ := taken j after
      rw [there,Option.some.injEq] at here
      subst here
      simp [Entry.filled,empty] at filled
  · left
    have matched : entry.hash = hashOf hashing key ∧ (entry.key == key) = true := by
      simpa [empty] using stopped
    refine ⟨_,entry,?_,there,?_,matched.2⟩
    · simp [HashTable.findEntry,found,empty]
    · rw [Entry.live,matched.1,decide_eq_true_eq]; exact hashOf_valid key

-- find answers what the map does.
theorem Represents.find [EquivBEq K] (represents : Represents options hashing t map) (key : K) :
    find hashing t key = .ok (map.lookup key) := by
  rcases represents.findEntry key with ⟨i,entry,found,there,live,same⟩ | ⟨found,absent⟩
  · have member : (entry.key,entry.value) ∈ map.pairs :=
      represents.content.mem_iff.mp (mem_live.mpr ⟨entry,List.mem_of_getElem? there,live,rfl⟩)
    have value : map.lookup key = some entry.value := map.lookup_some.mpr ⟨_,member,same,rfl⟩
    rw [HashTable.find,found,value]; rfl
  · have value : map.lookup key = none := map.lookup_none.mpr fun pair member =>
      absent pair (represents.content.mem_iff.mpr member)
    rw [HashTable.find,found,value]; rfl

omit [BEq K] in
theorem set_splits {entries : List (Entry K V)} (there : entries[i]? = some old) (new : Entry K V) :
    ∃ before after, entries = before ++ old :: after ∧ entries.set i new = before ++ new :: after := by
  obtain ⟨bound,at_i⟩ := List.getElem?_eq_some_iff.mp there
  refine ⟨entries.take i,entries.drop (i+1),?_,?_⟩
  · rw [← at_i,List.cons_getElem_drop_succ,List.take_append_drop]
  · rw [List.set_eq_take_append_cons_drop,if_pos bound]

-- A slot that is overwritten by a filled entry keeps every path that is there.
omit [BEq K] in
theorem Path.set {entries : List (Entry K V)} (path : Path entries wanted i) (new : Entry K V)
    (filled : new.filled = true) (slot : Nat) : Path (entries.set slot new) wanted i := by
  obtain ⟨j,reached,taken⟩ := path
  rw [Path,List.length_set]
  refine ⟨j,reached,?_⟩
  intro earlier before
  obtain ⟨entry,there,was⟩ := taken earlier before
  rw [List.getElem?_set]
  split
  · rename_i same
    rw [if_pos (by rw [same]; exact (List.getElem?_eq_some_iff.mp there).1)]
    exact ⟨new,rfl,filled⟩
  · exact ⟨entry,there,was⟩

omit [BEq K] in
theorem getElem?_set_cases {entries : List (Entry K V)} (there : (entries.set slot new)[i]? = some entry) :
    (i = slot ∧ entry = new) ∨ (i ≠ slot ∧ entries[i]? = some entry) := by
  rw [List.getElem?_set] at there
  split at there
  · split at there
    · left; exact ⟨by omega,by simpa using there.symm⟩
    · cases there
  · right; exact ⟨by omega,there⟩

end HashTable
