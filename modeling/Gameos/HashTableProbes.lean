import Gameos.HashTable

namespace HashTable
open TriangularProbe

variable {K V : Type} [BEq K]

-- A result is allowed to be the refusal of the allocator, and no other failure.
def Settled (result : Except Failure α) (post : α → Prop) : Prop :=
  match result with
  | .ok a => post a
  | .error .exhausted => True
  | .error _ => False

theorem Settled.bind {result : Except Failure α} {next : α → Except Failure β} {p : α → Prop} {final : β → Prop}
    (first : Settled result p) (rest : ∀ a, p a → Settled (next a) final) :
    Settled (result >>= next) final := by
  cases result with
  | ok a => exact rest a first
  | error failure => cases failure with
    | exhausted => trivial
    | asserted message => exact first.elim
    | diverged => exact first.elim

theorem Settled.weaken {result : Except Failure α} {post final : α → Prop}
    (first : Settled result post) (implies : ∀ a, post a → final a) : Settled result final := by
  cases result with
  | ok a => exact implies a first
  | error failure => cases failure <;> exact first

def Entry.filled (entry : Entry K V) : Bool := entry.hash != emptyHash
def Entry.live (entry : Entry K V) : Bool := firstValidHash ≤ entry.hash

def Table.live (t : Table K V) : List (K × V) :=
  (t.entries.filter Entry.live).map fun entry => (entry.key,entry.value)

-- The slot of the j-th probe.
def position (hash : UInt32) (size j : Nat) : Nat := (hash.toNat + triangle j) % size

-- A table of 2^k slots whose mask fits the 32 bits it is kept in.
def Sized (entries : List (Entry K V)) : Prop := ∃ k, 5 ≤ k ∧ k ≤ 32 ∧ entries.length = 2^k

omit [BEq K] in
theorem Sized.bounds {entries : List (Entry K V)} (sized : Sized entries) :
    32 ≤ entries.length ∧ entries.length ≤ 2^32 := by
  obtain ⟨k,low,high,size⟩ := sized
  rw [size]
  exact ⟨Nat.pow_le_pow_right (n:=2) (by decide) low,Nat.pow_le_pow_right (by decide) high⟩

omit [BEq K] in
theorem Sized.congr {entries other : List (Entry K V)} (sized : Sized entries)
    (same : other.length = entries.length) : Sized other := by
  obtain ⟨k,low,high,size⟩ := sized
  exact ⟨k,low,high,same.trans size⟩

omit [BEq K] in
theorem mask_toNat {t : Table K V} (sized : Sized t.entries) : t.mask.toNat = t.entries.length - 1 := by
  have bounds := sized.bounds
  rw [Table.mask,UInt32.toNat_ofNat']
  exact Nat.mod_eq_of_lt (by omega)

omit [BEq K] in
theorem and_mask {t : Table K V} (sized : Sized t.entries) (n : Nat) :
    n &&& t.mask.toNat = n % t.entries.length := by
  rw [mask_toNat sized]
  obtain ⟨k,_,_,size⟩ := sized
  rw [size,Nat.and_two_pow_sub_one_eq_mod]

omit [BEq K] in
theorem position_zero {t : Table K V} (sized : Sized t.entries) (hash : UInt32) :
    (hash &&& t.mask).toNat = position hash t.entries.length 0 := by
  rw [UInt32.toNat_and,and_mask sized]; rfl

-- The step counter may wrap at 2^32; the size of the table divides that.
omit [BEq K] in
theorem position_next {t : Table K V} (sized : Sized t.entries) (hash : UInt32) (j : Nat) :
    (position hash t.entries.length j + (UInt32.ofNat (j+1)).toNat) &&& t.mask.toNat =
      position hash t.entries.length (j+1) := by
  rw [and_mask sized]
  obtain ⟨k,_,high,size⟩ := sized
  have divides : 2^k ∣ 2^32 := Nat.pow_dvd_pow 2 high
  rw [UInt32.toNat_ofNat',position,position,triangle,size,Nat.mod_add_mod,Nat.add_mod,
    Nat.mod_mod_of_dvd _ divides,← Nat.add_mod,Nat.add_assoc]

omit [BEq K] in
theorem position_lt {entries : List (Entry K V)} (sized : Sized entries) (hash : UInt32) (j : Nat) :
    position hash entries.length j < entries.length :=
  Nat.mod_lt _ (by have := sized.bounds; omega)

omit [BEq K] in
theorem position_covers {entries : List (Entry K V)} (sized : Sized entries) (hash : UInt32)
    (inside : i < entries.length) : ∃ j < entries.length, position hash entries.length j = i := by
  obtain ⟨k,_,_,size⟩ := sized
  simp only [position]
  rw [size] at inside ⊢
  exact triangle_covers hash.toNat k i inside

omit [BEq K] in
theorem probe_reaches {t : Table K V} (sized : Sized t.entries) {stops : Entry K V → Bool} {hash : UInt32}
    (start fuel j : Nat) (enough : j < fuel) (passed : ∀ i, start ≤ i → i < start + j →
      ∃ entry, t.entries[position hash t.entries.length i]? = some entry ∧ stops entry = false)
    (there : t.entries[position hash t.entries.length (start + j)]? = some entry) (stopped : stops entry = true) :
    probe t.entries t.mask stops fuel (position hash t.entries.length start) (.ofNat (start+1)) =
      .ok (position hash t.entries.length (start+j),entry) := by
  induction fuel generalizing start j with
  | zero => omega
  | succ fuel ih =>
      cases j with
      | zero => rw [Nat.add_zero] at there; simp [probe,there,stopped]
      | succ j =>
          obtain ⟨other,here,goes⟩ := passed start (Nat.le_refl _) (by omega)
          have increment : UInt32.ofNat (start+1) + 1 = .ofNat (start+1+1) := by
            rw [UInt32.ofNat_add (start+1) 1]; rfl
          simp only [probe,here,goes,Bool.false_eq_true,if_false]
          rw [position_next sized,increment,ih (start+1) j (by omega)
            (fun i above below => passed i (by omega) (by omega))
            (by rwa [Nat.add_right_comm,Nat.add_assoc]),Nat.add_right_comm,Nat.add_assoc]

-- Where some slot stops the loop, the loop ends at the first such slot of its path.
omit [BEq K] in
theorem probe_first {t : Table K V} (sized : Sized t.entries) {stops : Entry K V → Bool} (hash : UInt32)
    (some_stops : ∃ entry ∈ t.entries, stops entry = true) :
    ∃ j entry, t.entries[position hash t.entries.length j]? = some entry ∧ stops entry = true ∧
      (∀ i < j, ∃ other, t.entries[position hash t.entries.length i]? = some other ∧ stops other = false) ∧
      probe t.entries t.mask stops (t.entries.length + 1) (hash &&& t.mask).toNat 1 =
        .ok (position hash t.entries.length j,entry) := by
  classical
  obtain ⟨entry,member,stopped⟩ := some_stops
  obtain ⟨i,inside,at_i⟩ := List.mem_iff_getElem.mp member
  obtain ⟨reached,bound,same⟩ := position_covers sized hash inside
  let Stops := fun j => ∃ entry, t.entries[position hash t.entries.length j]? = some entry ∧ stops entry = true
  have exists_stop : ∃ j, Stops j := ⟨reached,entry,by rw [same,List.getElem?_eq_getElem inside,at_i],stopped⟩
  obtain ⟨first,there,halts⟩ := Nat.find_spec exists_stop
  have earlier : ∀ i < Nat.find exists_stop,
      ∃ other, t.entries[position hash t.entries.length i]? = some other ∧ stops other = false := by
    intro i before
    have valid := position_lt sized hash i
    refine ⟨t.entries[position hash t.entries.length i],List.getElem?_eq_getElem valid,?_⟩
    rw [← Bool.not_eq_true]
    exact fun halts => Nat.find_min exists_stop before ⟨_,List.getElem?_eq_getElem valid,halts⟩
  refine ⟨Nat.find exists_stop,first,there,halts,earlier,?_⟩
  have soon : Nat.find exists_stop ≤ reached :=
    Nat.find_min' exists_stop ⟨entry,by rw [same,List.getElem?_eq_getElem inside,at_i],stopped⟩
  have runs := probe_reaches sized 0 (t.entries.length+1) (Nat.find exists_stop) (by omega)
    (fun i _ before => earlier i (by omega)) (by rwa [Nat.zero_add]) halts
  simp only [Nat.zero_add] at runs
  rw [position_zero sized]
  exact runs

end HashTable
