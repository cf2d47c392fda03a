import Mathlib.Data.List.Pairwise
import Mathlib.Data.List.Perm.Basic

-- A finite map as its pairs, no two of which have equal keys.
structure FiniteMap (K V : Type) [BEq K] where
  pairs : List (K × V)
  distinct : pairs.Pairwise fun a b => (a.1 == b.1) = false

namespace FiniteMap
variable {K V : Type} [BEq K] [EquivBEq K]

def replaceAt (key : K) (value : V) (pair : K × V) : K × V :=
  if pair.1 == key then (pair.1,value) else pair

def lookup (map : FiniteMap K V) (key : K) : Option V :=
  (map.pairs.find? fun pair => pair.1 == key).map (·.2)

def empty : FiniteMap K V := ⟨[],.nil⟩

omit [EquivBEq K] in
theorem replaceAt_fst (key : K) (value : V) (pair : K × V) : (replaceAt key value pair).1 = pair.1 := by
  rw [replaceAt]; split <;> rfl

-- A key keeps the place, and the representative, it was first stored under.
def store (map : FiniteMap K V) (key : K) (value : V) : FiniteMap K V :=
  if present : ∃ pair ∈ map.pairs, (pair.1 == key) = true then
    ⟨map.pairs.map (replaceAt key value),by
      rw [List.pairwise_map]
      exact map.distinct.imp fun apart => by rwa [replaceAt_fst,replaceAt_fst]⟩
  else
    ⟨(key,value) :: map.pairs,.cons (fun pair member => by
      rw [← Bool.not_eq_true]
      exact fun same => present ⟨pair,member,BEq.symm same⟩) map.distinct⟩

def discard (map : FiniteMap K V) (key : K) : FiniteMap K V :=
  ⟨map.pairs.filter fun pair => !(pair.1 == key),map.distinct.filter _⟩

omit [EquivBEq K] in
theorem lookup_none (map : FiniteMap K V) :
    map.lookup key = none ↔ ∀ pair ∈ map.pairs, (pair.1 == key) = false := by
  simp [lookup]

-- Keys are distinct, so the first match is the only one.
theorem lookup_some (map : FiniteMap K V) :
    map.lookup key = some value ↔ ∃ pair ∈ map.pairs, (pair.1 == key) = true ∧ pair.2 = value := by
  rw [lookup,Option.map_eq_some_iff]
  constructor
  · rintro ⟨pair,found,same⟩
    have matched := List.find?_some found
    exact ⟨pair,List.mem_of_find?_eq_some found,matched,same⟩
  · rintro ⟨pair,member,equal,same⟩
    refine ⟨pair,?_,same⟩
    obtain ⟨before,after,split⟩ := List.append_of_mem member
    have distinct := map.distinct
    rw [split,List.pairwise_append] at distinct
    rw [split,List.find?_append,List.find?_eq_none.mpr,Option.none_or]
    · exact List.find?_cons_of_pos equal
    intro other inside matched
    have apart := distinct.2.2 other inside pair List.mem_cons_self
    rw [BEq.trans matched (BEq.symm equal)] at apart
    cases apart

-- Two maps with the same pairs, in any order, answer alike.
theorem lookup_perm {one two : FiniteMap K V} (same : one.pairs.Perm two.pairs) (key : K) :
    one.lookup key = two.lookup key := by
  ext value
  simp only [lookup_some,same.mem_iff]

omit [EquivBEq K] in
theorem lookup_empty (key : K) : (empty : FiniteMap K V).lookup key = none := rfl

theorem lookup_discard (map : FiniteMap K V) (key other : K) :
    (map.discard key).lookup other = if key == other then none else map.lookup other := by
  ext value
  rw [lookup_some]
  simp only [discard,List.mem_filter,Bool.not_eq_true']
  split
  · rename_i same
    simp only [reduceCtorEq,iff_false]
    rintro ⟨pair,⟨_,apart⟩,equal,_⟩
    rw [BEq.trans equal (BEq.symm same)] at apart
    cases apart
  · rename_i different
    rw [lookup_some]
    constructor
    · rintro ⟨pair,⟨member,_⟩,rest⟩
      exact ⟨pair,member,rest⟩
    · rintro ⟨pair,member,equal,value⟩
      refine ⟨pair,⟨member,?_⟩,equal,value⟩
      rw [← Bool.not_eq_true]
      exact fun same => different (BEq.trans (BEq.symm same) equal)

theorem lookup_store (map : FiniteMap K V) (key other : K) (value : V) :
    (map.store key value).lookup other = if key == other then some value else map.lookup other := by
  rw [store]
  split
  · rename_i present
    obtain ⟨pair,member,equal⟩ := present
    split
    · rename_i same
      rw [lookup_some]
      refine ⟨replaceAt key value pair,List.mem_map_of_mem member,?_,?_⟩
      · rw [replaceAt_fst]; exact BEq.trans equal same
      · rw [replaceAt,if_pos equal]
    · rename_i different
      have kept : ∀ pair : K × V, (pair.1 == other) = true → replaceAt key value pair = pair := by
        intro pair matched
        rw [replaceAt,if_neg]
        exact fun equal => different (BEq.trans (BEq.symm equal) matched)
      ext result
      simp only [lookup_some,List.mem_map]
      constructor
      · rintro ⟨_,⟨pair,member,rfl⟩,matched,rfl⟩
        rw [replaceAt_fst] at matched
        exact ⟨pair,member,matched,by rw [kept pair matched]⟩
      · rintro ⟨pair,member,matched,rfl⟩
        exact ⟨pair,⟨pair,member,kept pair matched⟩,matched,rfl⟩
  · rw [lookup,List.find?_cons]
    split
    · rename_i same; rw [if_pos same]; rfl
    · rename_i different; rw [if_neg (by simp [different])]; rfl

end FiniteMap
