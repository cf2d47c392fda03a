import Mathlib.Data.List.Basic
import Mathlib.Data.Set.Lattice
import Mathlib.Order.CompletePartialOrder

-- Lists of things that each hold a set of points, and cutting every one of them into pieces.
namespace RegionCovers

variable {α ι : Type} (holds : α → Set ι)

def Apart (a b : α) : Prop := Disjoint (holds a) (holds b)

def covered (list : List α) : Set ι := {x | ∃ a ∈ list,x ∈ holds a}

-- The pieces of one thing are apart and hold what is kept of it.
structure Cut (keep : Set ι) (pieces : List α) (a : α) : Prop where
  apart : pieces.Pairwise (Apart holds)
  exact : covered holds pieces = holds a ∩ keep

variable {holds} {keep : Set ι} {pieces : α → List α} {list other : List α} {a b : α}

theorem Apart.symm (apart : Apart holds a b) : Apart holds b a := Disjoint.symm apart

theorem covered_cons (a : α) (list : List α) : covered holds (a :: list) = holds a ∪ covered holds list := by
  ext x
  exact List.exists_mem_cons_iff _ _ _

theorem covered_nil : covered holds ([] : List α) = ∅ := by
  ext x
  exact ⟨fun ⟨a,member,_⟩ => absurd member List.not_mem_nil,fun none => absurd none (Set.notMem_empty x)⟩

theorem covered_one (a : α) : covered holds [a] = holds a := by
  rw [covered_cons,covered_nil,Set.union_empty]

theorem covered_append (list other : List α) : covered holds (list ++ other) = covered holds list ∪ covered holds other := by
  induction list with
  | nil => rw [List.nil_append,covered_nil,Set.empty_union]
  | cons a rest ih => rw [List.cons_append,covered_cons,covered_cons,ih,Set.union_assoc]

theorem covered_perm (same : list.Perm other) : covered holds list = covered holds other := by
  ext x
  exact exists_congr fun a => and_congr_left fun _ => same.mem_iff

theorem apart_perm (same : list.Perm other) : list.Pairwise (Apart holds) ↔ other.Pairwise (Apart holds) :=
  same.pairwise_iff Apart.symm

theorem Cut.within (cut : Cut holds keep list a) (member : b ∈ list) : holds b ⊆ holds a ∩ keep := by
  rw [← cut.exact]
  exact fun x here => ⟨b,member,here⟩

theorem covered_flatMap (cut : ∀ a ∈ list,Cut holds keep (pieces a) a) :
    covered holds (list.flatMap pieces) = covered holds list ∩ keep := by
  induction list with
  | nil => rw [List.flatMap_nil,covered_nil,Set.empty_inter]
  | cons a rest ih =>
      rw [List.flatMap_cons,covered_append,covered_cons,Set.union_inter_distrib_right,
        (cut a List.mem_cons_self).exact,ih fun b member => cut b (List.mem_cons_of_mem _ member)]

theorem apart_flatMap (cut : ∀ a ∈ list,Cut holds keep (pieces a) a) (apart : list.Pairwise (Apart holds)) :
    (list.flatMap pieces).Pairwise (Apart holds) := by
  refine List.pairwise_flatMap.mpr ⟨fun a member => (cut a member).apart,apart.imp_of_mem ?_⟩
  intro a b inA inB apart c inC d inD
  exact apart.mono ((cut a inA).within inC |>.trans Set.inter_subset_left) ((cut b inB).within inD |>.trans Set.inter_subset_left)

end RegionCovers
