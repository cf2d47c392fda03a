import Gameos.HashTableSteps

namespace HashTable

variable {K V : Type} [BEq K] [Inhabited K] [Inhabited V] {options : Options} {hashing : Hashing K}
  {allocates : Nat → Bool} {t s : Table K V} {map m : FiniteMap K V} {key : K}

-- Doubling from 1 stops at the first power of two that is not below the value.
theorem nextPowerOfTwo_go (value fuel i : Nat) :
    ∃ j, nextPowerOfTwo.go value fuel (2^i) = 2^j ∧ i ≤ j ∧ j ≤ i + fuel ∧ (value ≤ 2^j ∨ j = i + fuel) ∧
      (i = j ∨ 2^(j-1) < value) := by
  induction fuel generalizing i with
  | zero => exact ⟨i,rfl,Nat.le_refl _,Nat.le_refl _,.inr rfl,.inl rfl⟩
  | succ fuel ih =>
      rw [nextPowerOfTwo.go]
      split
      · rename_i small
        have double : 2^i + 2^i = 2^(i+1) := by rw [Nat.pow_succ]; omega
        obtain ⟨j,result,above,below,reached,least⟩ := ih (i+1)
        refine ⟨j,by rw [double,result],by omega,by omega,?_,?_⟩
        · rcases reached with reached | reached
          · exact .inl reached
          · right; omega
        · right
          rcases least with same | least
          · rwa [show j - 1 = i by omega]
          · exact least
      · exact ⟨i,rfl,Nat.le_refl _,by omega,.inl (by omega),.inl rfl⟩

theorem nextPowerOfTwo_pow (bound : j ≤ 63) : nextPowerOfTwo (2^j) = 2^j := by
  obtain ⟨i,result,_,small,reached,least⟩ := nextPowerOfTwo_go (2^j) 63 0
  rw [nextPowerOfTwo,show (1 : Nat) = 2^0 from rfl,result]
  congr 1
  have above : j ≤ i := by
    rcases reached with reached | reached
    · exact (Nat.pow_le_pow_iff_right (by decide)).mp reached
    · omega
  rcases least with zero | least
  · omega
  · have := (Nat.pow_lt_pow_iff_right (a:=2) (by decide)).mp least
    omega

-- A table of the smallest size at least, and of a power of two slots.
theorem nextPowerOfTwo_sized (value : Nat) (large : 32 ≤ value) (limit : nextPowerOfTwo value ≤ 2^32) :
    ∃ k, 5 ≤ k ∧ k ≤ 32 ∧ nextPowerOfTwo value = 2^k := by
  obtain ⟨j,result,_,_,reached,_⟩ := nextPowerOfTwo_go value 63 0
  rw [nextPowerOfTwo,show (1 : Nat) = 2^0 from rfl,result] at limit ⊢
  have low : 5 ≤ j := by
    rcases reached with reached | reached
    · exact (Nat.pow_le_pow_iff_right (a:=2) (by decide)).mp (Nat.le_trans (show 2^5 ≤ value by omega) reached)
    · omega
  exact ⟨j,low,(Nat.pow_le_pow_iff_right (by decide)).mp limit,rfl⟩

omit [BEq K] in
theorem resizeEntries_settled (limits : ∀ n, allocates n = true → n ≤ 2^32) (t : Table K V) (newSlotCount : Nat) :
    Settled (resizeEntries allocates t newSlotCount) fun t' =>
      t'.entries = .replicate (nextPowerOfTwo (max newSlotCount minSize)) ⟨emptyHash,default,default⟩ ∧
      Sized t'.entries := by
  rw [resizeEntries]
  split
  · rename_i granted
    refine ⟨rfl,?_⟩
    obtain ⟨k,low,high,size⟩ := nextPowerOfTwo_sized (max newSlotCount minSize)
      (Nat.le_max_right newSlotCount minSize) (limits _ granted)
    exact ⟨k,low,high,by rw [List.length_replicate,size]⟩
  · trivial

theorem fresh_represents (slots : t.entries = .replicate n ⟨emptyHash,default,default⟩) (sized : Sized t.entries)
    (counted : t.count = 0) (filled : t.slotsFilled = 0) : Represents options hashing t FiniteMap.empty := by
  have hollow : ∀ entry ∈ t.entries, entry.filled = false ∧ entry.live = false := by
    intro entry member
    rw [slots] at member
    rw [List.eq_of_mem_replicate member]
    exact ⟨rfl,rfl⟩
  exact .of_hollow sized hollow counted filled

omit [Inhabited K] [Inhabited V] in
theorem Represents.congr (represents : Represents options hashing t m) (same : m.pairs.Perm map.pairs) :
    Represents options hashing t map :=
  {represents with content := represents.content.trans same}

omit [Inhabited K] [Inhabited V] in
theorem store_absent [EquivBEq K] (absent : m.lookup key = none) (value : V) :
    (m.store key value).pairs = (key,value) :: m.pairs := by
  rw [FiniteMap.store,dif_neg]
  rintro ⟨pair,member,same⟩
  have differ := m.lookup_none.mp absent pair member
  rw [same] at differ
  cases differ

-- The loop of expand, for any add that keeps what `fits` says of the entries to come.
omit [Inhabited K] [Inhabited V] in
theorem rehash_loop [EquivBEq K] {add : Table K V → K → V → Except Failure (Nat × Table K V)}
    {fits : Nat → Table K V → Prop}
    (keep : ∀ n s m key value, Represents options hashing s m → fits (n+1) s → m.lookup key = none →
      Settled (add s key value) fun r => Represents options hashing r.2 (m.store key value) ∧ fits n r.2)
    (entries : List (Entry K V)) (represents : Represents options hashing s m)
    (enough : fits (entries.countP Entry.live) s)
    (distinct : (Table.live ⟨0,0,entries⟩).Pairwise fun a b => (a.1 == b.1) = false)
    (apart : ∀ pair ∈ Table.live ⟨0,0,entries⟩, m.lookup pair.1 = none) :
    Settled (entries.foldlM (rehashEntry add) s) fun s' => ∃ m', Represents options hashing s' m' ∧
      m'.pairs.Perm (Table.live ⟨0,0,entries⟩ ++ m.pairs) ∧ fits 0 s' := by
  induction entries generalizing s m with
  | nil => exact ⟨m,represents,.refl _,enough⟩
  | cons entry entries ih =>
      rw [List.foldlM_cons,rehashEntry]
      cases live : entry.live with
      | false =>
          rw [if_neg (by rw [Entry.live,decide_eq_false_iff_not] at live; exact live)]
          have here : Table.live ⟨0,0,entry :: entries⟩ = Table.live ⟨0,0,entries⟩ := live_beside [] live
          rw [here] at distinct apart ⊢
          rw [List.countP_cons_of_neg (by rw [live]; decide)] at enough
          exact ih represents enough distinct apart
      | true =>
          rw [if_pos (by rw [Entry.live,decide_eq_true_eq] at live; exact live)]
          have here : Table.live ⟨0,0,entry :: entries⟩ = (entry.key,entry.value) :: Table.live ⟨0,0,entries⟩ :=
            live_around [] live
          rw [here] at distinct apart ⊢
          rw [List.countP_cons_of_pos live] at enough
          have unseen := apart (entry.key,entry.value) List.mem_cons_self
          refine Settled.bind (p:=fun s' => Represents options hashing s' (m.store entry.key entry.value) ∧
            fits (entries.countP Entry.live) s') ?_ ?_
          · exact Settled.bind (keep _ s m entry.key entry.value represents enough unseen) fun _ result => result
          · rintro s' ⟨represents',enough'⟩
            have later := List.pairwise_cons.mp distinct
            refine (ih represents' enough' later.2 ?_).weaken ?_
            · intro pair member
              rw [FiniteMap.lookup_store,if_neg (by rw [later.1 pair member]; decide)]
              exact apart pair (List.mem_cons_of_mem _ member)
            · rintro final ⟨m',represents'',same,rest⟩
              refine ⟨m',represents'',same.trans ?_,rest⟩
              rw [store_absent unseen]
              exact List.perm_middle

theorem rehash_settled [EquivBEq K] {add : Table K V → K → V → Except Failure (Nat × Table K V)}
    (fits : Nat → Table K V → Prop) (limits : ∀ n, allocates n = true → n ≤ 2^32)
    (keep : ∀ n s m key value, Represents options hashing s m → fits (n+1) s → m.lookup key = none →
      Settled (add s key value) fun r => Represents options hashing r.2 (m.store key value) ∧ fits n r.2)
    (represents : Represents options hashing t map) (newSlotCount : Nat)
    (enough : ∀ fresh : Table K V, fresh.slotsFilled = 0 →
      fresh.entries.length = nextPowerOfTwo (max newSlotCount minSize) → fits t.count fresh) :
    Settled (rehash allocates add t newSlotCount) fun t' => Represents options hashing t' map ∧ fits 0 t' := by
  rw [rehash]
  refine Settled.bind (resizeEntries_settled limits t (max newSlotCount minSize)) ?_
  rintro resized ⟨slots,sized⟩
  rw [Nat.max_assoc,Nat.max_self] at slots
  have start : Represents options hashing {resized with count := 0,slotsFilled := 0} FiniteMap.empty :=
    fresh_represents slots sized rfl rfl
  have fit := enough {resized with count := 0,slotsFilled := 0} rfl (by rw [slots,List.length_replicate])
  rw [represents.counted] at fit
  refine (rehash_loop keep t.entries start fit represents.distinct fun _ _ => rfl).weaken ?_
  rintro t' ⟨m',represents',same,rest⟩
  refine ⟨represents'.congr (same.trans ?_),rest⟩
  rw [show FiniteMap.empty.pairs = ([] : List (K × V)) from rfl,List.append_nil]
  exact represents.content

omit [Inhabited K] [Inhabited V] in
theorem insert_settled [EquivBEq K] (represents : Represents options hashing t map)
    (absent : map.lookup key = none) (value : V) (room : t.slotsFilled + 1 < t.entries.length)
    (load : (t.slotsFilled + 1) * 100 < 2 * (t.entries.length * options.loadFactorPercent)) :
    Settled (insert options hashing t key value) fun r => Represents options hashing r.2 (map.store key value) ∧
      r.2.entries.length = t.entries.length ∧ r.2.slotsFilled ≤ t.slotsFilled + 1 := by
  obtain ⟨slot,t',inserted,result⟩ := represents.insert absent value room load
  rw [inserted]
  exact result

-- An add that finds the load low enough does not grow the table.
theorem add_below [EquivBEq K] (represents : Represents options hashing t map) (absent : map.lookup key = none)
    (value : V) (below : (t.slotsFilled + 1) * 100 < t.entries.length * options.loadFactorPercent) (depth : Nat) :
    Settled (add options hashing allocates (depth+1) t key value) fun r =>
      Represents options hashing r.2 (map.store key value) ∧
      r.2.entries.length = t.entries.length ∧ r.2.slotsFilled ≤ t.slotsFilled + 1 := by
  have factor : t.entries.length * options.loadFactorPercent ≤ t.entries.length * 99 :=
    Nat.mul_le_mul_left _ (Nat.le_of_lt_succ options.below)
  rw [add,if_neg (by omega)]
  exact insert_settled represents absent value (by omega) (by omega)

omit [Inhabited K] [Inhabited V] in
-- The size expand picks holds all live entries and one more below the load factor.
theorem expansion_room (represents : Represents options hashing t map) :
    (∃ j, 5 ≤ j ∧ j ≤ 33 ∧ expansion options t = 2^j) ∧
    t.count * 100 < expansion options t * options.loadFactorPercent ∧
    t.count + 1 < expansion options t ∧
    (t.count + 1) * 100 < 2 * (expansion options t * options.loadFactorPercent) := by
  have fewer := live_le_filled t.entries
  rw [← represents.counted,← represents.filled] at fewer
  have room := represents.room
  have load := represents.load
  have least := represents.sized.bounds.1
  have factor : t.entries.length * options.loadFactorPercent ≤ t.entries.length * 99 :=
    Nat.mul_le_mul_left _ (Nat.le_of_lt_succ options.below)
  have weight : t.entries.length * 1 ≤ t.entries.length * options.loadFactorPercent :=
    Nat.mul_le_mul_left _ options.positive
  obtain ⟨k,low,high,size⟩ := represents.sized
  rw [expansion]
  split
  · exact ⟨⟨k,low,by omega,size⟩,by omega,by omega,by omega⟩
  · rw [Nat.mul_right_comm]
    refine ⟨⟨k+1,by omega,by omega,by rw [size,Nat.pow_succ]⟩,by omega,by omega,by omega⟩

theorem add_settled [EquivBEq K] (limits : ∀ n, allocates n = true → n ≤ 2^32)
    (represents : Represents options hashing t map) (absent : map.lookup key = none) (value : V) :
    Settled (add options hashing allocates nesting t key value) fun r =>
      Represents options hashing r.2 (map.store key value) := by
  by_cases below : (t.slotsFilled + 1) * 100 < t.entries.length * options.loadFactorPercent
  · exact (add_below represents absent value below 1).weaken fun _ result => result.1
  · obtain ⟨⟨j,low,high,size⟩,light,room,load⟩ := expansion_room represents
    have large : max (expansion options t) minSize = expansion options t :=
      Nat.max_eq_left (by rw [size]; exact Nat.pow_le_pow_right (n:=2) (by decide) low)
    rw [nesting,add,if_pos (by omega)]
    -- the rehash adds as many entries as are live, and these fit
    refine Settled.bind (rehash_settled (fun n s => s.entries.length = expansion options t ∧
      s.slotsFilled + n ≤ t.count) limits ?_ represents (expansion options t) ?_) ?_
    · rintro n s m key value represents' ⟨same,few⟩ absent'
      refine (add_below represents' absent' value (by rw [same]; omega) 0).weaken ?_
      rintro r ⟨stored,length,slots⟩
      exact ⟨stored,length.trans same,by omega⟩
    · intro fresh none length
      rw [large,size,nextPowerOfTwo_pow (by omega),← size] at length
      exact ⟨length,by omega⟩
    · rintro t' ⟨represents',same,few⟩
      refine (insert_settled represents' absent value (by omega) (by rw [same]; omega)).weaken ?_
      exact fun _ result => result.1

end HashTable
