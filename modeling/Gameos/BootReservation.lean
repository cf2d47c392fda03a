import Gameos.BootInformation
import Gameos.BuddyStaleness
import Gameos.RegionCovers

-- gameos/memory.hh: which memory is left for the buddy allocator at boot.
namespace BootInformation
open AddressWalks AllocatorTypes ByteMemory DyadicBlocks MachineWords RegionCovers

def MemoryRegion.cells (region : MemoryRegion) : Set Nat := {x | region.base ≤ x ∧ x < region.base + region.size}

structure Separate (regions : List MemoryRegion) : Prop where
  apart : regions.Pairwise (Apart MemoryRegion.cells)
  unwrapped : ∀ region ∈ regions,region.base + region.size < 2^64

-- A call with an empty range returns at once.
def reserved (range : Nat × Nat) : Set Nat :=
  {x | range.1 < range.2 ∧ alignDown range.1 pageSize ≤ x ∧ x < alignUp range.2 pageSize}

-- align_up of the end does not wrap.
def Fits (range : Nat × Nat) : Prop := range.2 + 4095 < 2^64

instance (range : Nat × Nat) : Decidable (Fits range) := by
  unfold Fits
  infer_instance

-- What the range leaves of a region, in the order of the branches.
def pieces (start fin : Nat) (region : MemoryRegion) : List MemoryRegion :=
  let regionEnd := add64 region.base region.size
  if Skips start fin region then [region]
  else if start ≤ region.base ∧ regionEnd ≤ fin then []
  else if start ≤ region.base then [⟨fin,sub64 regionEnd fin⟩]
  else if regionEnd ≤ fin then [⟨region.base,sub64 start region.base⟩]
  else [⟨region.base,sub64 start region.base⟩,⟨fin,sub64 regionEnd fin⟩]

-- The range lies inside the region.
def Splits (start fin : Nat) (region : MemoryRegion) : Prop :=
  start < fin ∧ region.base < start ∧ fin < add64 region.base region.size

instance (start fin : Nat) (region : MemoryRegion) : Decidable (Splits start fin region) := by
  unfold Splits
  infer_instance

section Loop
variable {start fin : Nat} {region : MemoryRegion} {done todo regions result : List MemoryRegion}

theorem lastFirst_perm (rest : List MemoryRegion) : (lastFirst rest).Perm rest := by
  cases rest with
  | nil => exact .nil
  | cons region rest =>
      have split := List.dropLast_append_getLast (List.cons_ne_nil region rest)
      conv => rhs; rw [← split]
      exact (List.perm_append_singleton _ _).symm

theorem pieces_above (start fin size : Nat) : pieces start fin ⟨fin,size⟩ = [⟨fin,size⟩] :=
  if_pos (.inl (Nat.le_refl fin))

-- The loop replaces every region by its pieces.
theorem reserveLoop_pieces (ran : reserveLoop start fin done todo = .ok result) :
    result.Perm (done ++ todo.flatMap (pieces start fin)) := by
  induction done, todo using reserveLoop.induct start fin with
  | case1 done =>
      rw [reserveLoop] at ran
      cases ran
      rw [List.flatMap_nil,List.append_nil]
  | case2 done region rest skips ih =>
      rw [reserveLoop,if_pos skips] at ran
      have one : pieces start fin region = [region] := if_pos skips
      rw [List.flatMap_cons,one,← List.append_assoc]
      exact ih ran
  | case3 done region rest regionEnd meets covers ih =>
      rw [reserveLoop,if_neg meets,if_pos covers] at ran
      have none : pieces start fin region = [] := (if_neg meets).trans (if_pos covers)
      rw [List.flatMap_cons,none,List.nil_append]
      exact (ih ran).trans (((lastFirst_perm rest).flatMap_right _).append_left done)
  | case4 done region rest regionEnd meets partly low ih =>
      rw [reserveLoop,if_neg meets,if_neg partly,if_pos low] at ran
      have one : pieces start fin region = [⟨fin,sub64 regionEnd fin⟩] := (if_neg meets).trans ((if_neg partly).trans (if_pos low))
      rw [List.flatMap_cons,one,← List.append_assoc]
      exact ih ran
  | case5 done region rest regionEnd meets partly high ends ih =>
      rw [reserveLoop,if_neg meets,if_neg partly,if_neg high,if_pos ends] at ran
      have one : pieces start fin region = [⟨region.base,sub64 start region.base⟩] :=
        (if_neg meets).trans ((if_neg partly).trans ((if_neg high).trans (if_pos ends)))
      rw [List.flatMap_cons,one,← List.append_assoc]
      exact ih ran
  | case6 done region rest regionEnd meets partly high later room ih =>
      rw [reserveLoop,if_neg meets,if_neg partly,if_neg high,if_neg later,if_pos room] at ran
      have two : pieces start fin region = [⟨region.base,sub64 start region.base⟩,⟨fin,sub64 regionEnd fin⟩] :=
        (if_neg meets).trans ((if_neg partly).trans ((if_neg high).trans (if_neg later)))
      have moved := ih ran
      rw [List.flatMap_append,List.flatMap_singleton,pieces_above] at moved
      rw [List.flatMap_cons,two]
      refine moved.trans ?_
      rw [List.append_assoc]
      refine List.Perm.append_left done (.cons _ ?_)
      exact List.perm_append_singleton _ _
  | case7 done region rest regionEnd meets partly high later full =>
      rw [reserveLoop,if_neg meets,if_neg partly,if_neg high,if_neg later,if_neg full] at ran
      cases ran

theorem reserveLoop_returns (room : done.length + todo.length + todo.countP (fun region => Splits start fin region) ≤ maxMemoryRegions)
    (some : start < fin) : ∃ result,reserveLoop start fin done todo = .ok result := by
  induction done, todo using reserveLoop.induct start fin with
  | case1 done =>
      rw [reserveLoop]
      exact ⟨done,rfl⟩
  | case2 done region rest skips ih =>
      rw [reserveLoop,if_pos skips]
      apply ih
      rw [List.countP_cons] at room
      rw [List.length_append,List.length_singleton]
      rw [List.length_cons] at room
      omega
  | case3 done region rest regionEnd meets covers ih =>
      rw [reserveLoop,if_neg meets,if_pos covers]
      apply ih
      rw [(lastFirst_perm rest).length_eq,(lastFirst_perm rest).countP_eq]
      rw [List.countP_cons,List.length_cons] at room
      omega
  | case4 done region rest regionEnd meets partly low ih =>
      rw [reserveLoop,if_neg meets,if_neg partly,if_pos low]
      apply ih
      rw [List.countP_cons,List.length_cons] at room
      rw [List.length_append,List.length_singleton]
      omega
  | case5 done region rest regionEnd meets partly high ends ih =>
      rw [reserveLoop,if_neg meets,if_neg partly,if_neg high,if_pos ends]
      apply ih
      rw [List.countP_cons,List.length_cons] at room
      rw [List.length_append,List.length_singleton]
      omega
  | case6 done region rest regionEnd meets partly high later space ih =>
      rw [reserveLoop,if_neg meets,if_neg partly,if_neg high,if_neg later,if_pos space]
      apply ih
      have splits : Splits start fin region := ⟨some,Nat.lt_of_not_le high,Nat.lt_of_not_le later⟩
      have skipped : ¬ Splits start fin ⟨fin,sub64 regionEnd fin⟩ := fun splits => Nat.lt_asymm splits.1 splits.2.1
      rw [List.countP_cons,List.length_cons,if_pos (decide_eq_true splits)] at room
      rw [List.countP_append,List.countP_singleton,if_neg (by simp [skipped]),List.length_append,List.length_append,
        List.length_singleton,List.length_singleton]
      omega
  | case7 done region rest regionEnd meets partly high later full =>
      have splits : Splits start fin region := ⟨some,Nat.lt_of_not_le high,Nat.lt_of_not_le later⟩
      rw [List.countP_cons,List.length_cons,if_pos (decide_eq_true splits)] at room
      omega

end Loop

section Exact
variable {start fin : Nat} {region : MemoryRegion} {regions result : List MemoryRegion} {range : Nat × Nat}

theorem skips_iff (unwrapped : region.base + region.size < 2^64) :
    Skips start fin region ↔ fin ≤ region.base ∨ region.base + region.size ≤ start := by
  unfold Skips
  rw [add64_of_lt unwrapped]

theorem pieces_cut (unwrapped : region.base + region.size < 2^64) (some : start < fin) (small : fin < 2^64) :
    Cut MemoryRegion.cells {x | ¬ (start ≤ x ∧ x < fin)} (pieces start fin region) region := by
  have fits : add64 region.base region.size = region.base + region.size := add64_of_lt unwrapped
  unfold pieces
  dsimp only
  rw [fits]
  by_cases skips : Skips start fin region
  · rw [if_pos skips]
    rw [skips_iff unwrapped] at skips
    refine ⟨List.pairwise_singleton _ _,?_⟩
    rw [covered_one]
    ext x
    simp only [MemoryRegion.cells,Set.mem_ofPred_eq,Set.mem_inter_iff]
    omega
  · rw [if_neg skips]
    rw [skips_iff unwrapped] at skips
    by_cases covers : start ≤ region.base ∧ region.base + region.size ≤ fin
    · rw [if_pos covers]
      refine ⟨.nil,?_⟩
      rw [covered_nil]
      ext x
      simp only [MemoryRegion.cells,Set.mem_ofPred_eq,Set.mem_inter_iff,Set.mem_empty_iff_false]
      exact iff_of_false id (by omega)
    · rw [if_neg covers]
      by_cases low : start ≤ region.base
      · have upper : sub64 (region.base + region.size) fin = region.base + region.size - fin :=
          sub64_of_le (by omega) unwrapped
        rw [if_pos low,upper]
        refine ⟨List.pairwise_singleton _ _,?_⟩
        rw [covered_one]
        ext x
        simp only [MemoryRegion.cells,Set.mem_ofPred_eq,Set.mem_inter_iff]
        omega
      · have lower : sub64 start region.base = start - region.base := sub64_of_le (by omega) (by omega)
        rw [if_neg low,lower]
        by_cases ends : region.base + region.size ≤ fin
        · rw [if_pos ends]
          refine ⟨List.pairwise_singleton _ _,?_⟩
          rw [covered_one]
          ext x
          simp only [MemoryRegion.cells,Set.mem_ofPred_eq,Set.mem_inter_iff]
          omega
        · have upper : sub64 (region.base + region.size) fin = region.base + region.size - fin :=
            sub64_of_le (by omega) unwrapped
          rw [if_neg ends,upper]
          refine ⟨List.pairwise_pair.mpr (Set.disjoint_left.mpr fun x here there => ?_),?_⟩
          · have below : x < region.base + (start - region.base) := here.2
            have above : fin ≤ x := there.1
            omega
          · rw [covered_cons,covered_one]
            ext x
            simp only [MemoryRegion.cells,Set.mem_ofPred_eq,Set.mem_inter_iff,Set.mem_union]
            omega

theorem pieces_bounds (unwrapped : region.base + region.size < 2^64) :
    ∀ piece ∈ pieces start fin region,piece.base + piece.size < 2^64 ∧ (piece.base = region.base ∨ piece.base = fin) := by
  have fits : add64 region.base region.size = region.base + region.size := add64_of_lt unwrapped
  have upper : fin ≤ region.base + region.size → fin + sub64 (region.base + region.size) fin < 2^64 := fun below => by
    rw [sub64_of_le below unwrapped]
    omega
  have lower : region.base ≤ start → start < region.base + region.size → region.base + sub64 start region.base < 2^64 :=
    fun above below => by
      rw [sub64_of_le above (by omega)]
      omega
  intro piece member
  unfold pieces at member
  dsimp only at member
  rw [fits] at member
  split at member
  case isTrue =>
    rw [List.mem_singleton.mp member]
    exact ⟨unwrapped,.inl rfl⟩
  case isFalse meets =>
    rw [skips_iff unwrapped] at meets
    split at member
    case isTrue => exact absurd member List.not_mem_nil
    case isFalse partly =>
      split at member
      case isTrue low =>
        rw [List.mem_singleton.mp member]
        exact ⟨upper (by omega),.inr rfl⟩
      case isFalse high =>
        split at member
        case isTrue ends =>
          rw [List.mem_singleton.mp member]
          exact ⟨lower (by omega) (by omega),.inl rfl⟩
        case isFalse later =>
          rcases List.mem_cons.mp member with rfl | member
          · exact ⟨lower (by omega) (by omega),.inl rfl⟩
          · rw [List.mem_singleton.mp member]
            exact ⟨upper (by omega),.inr rfl⟩

-- What is left of the regions once some addresses are taken.
structure Remains (regions : List MemoryRegion) (taken : Set Nat) (result : List MemoryRegion) : Prop where
  separate : Separate result
  exact : covered MemoryRegion.cells result = covered MemoryRegion.cells regions \ taken
  within : ∀ piece ∈ result,∃ region ∈ regions,piece.cells ⊆ region.cells
  -- no range reaches into the last page
  last : ∀ region ∈ regions,2^64 < region.base + 4096 → region ∈ result
  pages : (∀ region ∈ regions,region.base + 4096 ≤ 2^64) → ∀ piece ∈ result,piece.base + 4096 ≤ 2^64

theorem remains_all (separate : Separate regions) : Remains regions ∅ regions :=
  ⟨separate,Set.sdiff_empty.symm,fun piece member => ⟨piece,member,fun _ here => here⟩,fun _ member _ => member,fun low => low⟩

theorem Remains.trans {middle : List MemoryRegion} {one two : Set Nat} (first : Remains regions one middle)
    (second : Remains middle two result) : Remains regions (one ∪ two) result := by
  refine ⟨second.separate,?_,fun piece member => ?_,fun region member last => ?_,fun low => second.pages (first.pages low)⟩
  · rw [second.exact,first.exact,Set.sdiff_sdiff]
  · obtain ⟨middle,inMiddle,inside⟩ := second.within piece member
    obtain ⟨region,inRegions,outside⟩ := first.within middle inMiddle
    exact ⟨region,inRegions,inside.trans outside⟩
  · exact second.last region (first.last region member last) last

theorem range_bounds (some : range.1 < range.2) (fits : Fits range) :
    alignDown range.1 pageSize ≤ range.1 ∧ range.2 ≤ alignUp range.2 pageSize ∧ alignUp range.2 pageSize + 4096 ≤ 2^64 := by
  unfold Fits at fits
  obtain ⟨below,_,_⟩ := alignDown_bounds range.1 12 (by omega) (by decide)
  obtain ⟨above,close,q,exact⟩ := alignUp_bounds range.2 12 (by decide) (by omega)
  have page : (2:Nat)^12 = pageSize := rfl
  rw [page] at below above close exact
  unfold pageSize at *
  omega

theorem reserve_exact (separate : Separate regions) (fits : Fits range) (ran : reserve regions range = .ok result) :
    Remains regions (reserved range) result := by
  unfold reserve reserveRange at ran
  by_cases empty : range.2 ≤ range.1
  · rw [if_pos empty] at ran
    cases ran
    have nothing : reserved range = ∅ := by
      ext x
      exact ⟨fun here => absurd here.1 (Nat.not_lt.mpr empty),fun none => absurd none (Set.notMem_empty x)⟩
    rw [nothing]
    exact remains_all separate
  · rw [if_neg empty] at ran
    have some : range.1 < range.2 := Nat.lt_of_not_le empty
    obtain ⟨below,above,page⟩ := range_bounds some fits
    have taken : reserved range = {x | alignDown range.1 pageSize ≤ x ∧ x < alignUp range.2 pageSize} := by
      ext x
      exact and_iff_right some
    have cut : ∀ region ∈ regions,Cut MemoryRegion.cells (reserved range)ᶜ
        (pieces (alignDown range.1 pageSize) (alignUp range.2 pageSize) region) region := fun region member => by
      rw [taken]
      exact pieces_cut (separate.unwrapped region member) (by omega) (by omega)
    have same := reserveLoop_pieces ran
    rw [List.nil_append] at same
    refine ⟨⟨?_,fun piece member => ?_⟩,?_,fun piece member => ?_,fun region member last => ?_,fun low piece member => ?_⟩
    · rw [apart_perm same]
      exact apart_flatMap cut separate.apart
    · obtain ⟨region,inRegions,inPieces⟩ := List.mem_flatMap.mp (same.mem_iff.mp member)
      exact (pieces_bounds (separate.unwrapped region inRegions) piece inPieces).1
    · rw [covered_perm same,covered_flatMap cut]
      rfl
    · obtain ⟨region,inRegions,inPieces⟩ := List.mem_flatMap.mp (same.mem_iff.mp member)
      exact ⟨region,inRegions,((cut region inRegions).within inPieces).trans Set.inter_subset_left⟩
    · have skips : Skips (alignDown range.1 pageSize) (alignUp range.2 pageSize) region := .inl (by omega)
      refine same.mem_iff.mpr (List.mem_flatMap.mpr ⟨region,member,?_⟩)
      have one : pieces (alignDown range.1 pageSize) (alignUp range.2 pageSize) region = [region] := if_pos skips
      rw [one]
      exact List.mem_singleton_self region
    · obtain ⟨region,inRegions,inPieces⟩ := List.mem_flatMap.mp (same.mem_iff.mp member)
      have before := low region inRegions
      rcases (pieces_bounds (separate.unwrapped region inRegions) piece inPieces).2 with base | base
      · rw [base]
        exact before
      · rw [base]
        exact page

-- Only one of some regions that are apart can hold a whole range.
theorem splits_once (separate : Separate regions) : regions.countP (fun region => Splits start fin region) ≤ 1 := by
  induction regions with
  | nil => exact Nat.zero_le _
  | cons region rest ih =>
      obtain ⟨head,tail⟩ := List.pairwise_cons.mp separate.apart
      have inside : ∀ other ∈ region :: rest,Splits start fin other → start ∈ other.cells := fun other member splits => by
        obtain ⟨some,below,above⟩ := splits
        rw [add64_of_lt (separate.unwrapped other member)] at above
        exact ⟨by omega,by omega⟩
      rw [List.countP_cons]
      by_cases splits : Splits start fin region
      · have none : rest.countP (fun region => Splits start fin region) = 0 := by
          rw [List.countP_eq_zero]
          intro other member again
          exact Set.disjoint_left.mp (head other member) (inside region List.mem_cons_self splits)
            (inside other (List.mem_cons_of_mem _ member) (of_decide_eq_true again))
        rw [none,if_pos (decide_eq_true splits)]
      · rw [if_neg (by simp [splits])]
        exact ih ⟨tail,fun other member => separate.unwrapped other (List.mem_cons_of_mem _ member)⟩

theorem pieces_length (start fin : Nat) (regions : List MemoryRegion) (some : start < fin) :
    (regions.flatMap (pieces start fin)).length ≤ regions.length + regions.countP fun region => Splits start fin region := by
  induction regions with
  | nil => exact Nat.zero_le _
  | cons region rest ih =>
      rw [List.flatMap_cons,List.length_append,List.length_cons,List.countP_cons]
      have few : (pieces start fin region).length ≤ 1 + if decide (Splits start fin region) = true then 1 else 0 := by
        unfold pieces
        dsimp only
        split
        case isTrue => exact Nat.le_add_right _ _
        case isFalse meets =>
          split
          case isTrue => exact Nat.zero_le _
          case isFalse =>
            split
            case isTrue => exact Nat.le_add_right _ _
            case isFalse high =>
              split
              case isTrue => exact Nat.le_add_right _ _
              case isFalse later =>
                have splits : Splits start fin region := ⟨some,Nat.lt_of_not_le high,Nat.lt_of_not_le later⟩
                rw [if_pos (decide_eq_true splits)]
                exact Nat.le_refl 2
      omega

theorem reserve_returns (separate : Separate regions) (fits : Fits range) (room : regions.length < maxMemoryRegions) :
    ∃ result,reserve regions range = .ok result ∧ result.length ≤ regions.length + 1 := by
  unfold reserve reserveRange
  by_cases empty : range.2 ≤ range.1
  · rw [if_pos empty]
    exact ⟨regions,rfl,Nat.le_succ _⟩
  · rw [if_neg empty]
    obtain ⟨below,above,_⟩ := range_bounds (Nat.lt_of_not_le empty) fits
    have some : alignDown range.1 pageSize < alignUp range.2 pageSize := by omega
    have once := @splits_once (alignDown range.1 pageSize) (alignUp range.2 pageSize) regions separate
    obtain ⟨result,ran⟩ := @reserveLoop_returns _ (alignUp range.2 pageSize) [] regions
      (by rw [List.length_nil]; omega) some
    refine ⟨result,ran,?_⟩
    have same := (reserveLoop_pieces ran).length_eq
    rw [List.nil_append] at same
    have few := pieces_length (alignDown range.1 pageSize) (alignUp range.2 pageSize) regions some
    omega

end Exact

section Sequence
variable {regions result : List MemoryRegion} {ranges : List (Nat × Nat)}

def taken (ranges : List (Nat × Nat)) : Set Nat := {x | ∃ range ∈ ranges,x ∈ reserved range}

theorem taken_cons (range : Nat × Nat) (ranges : List (Nat × Nat)) : taken (range :: ranges) = reserved range ∪ taken ranges := by
  ext x
  exact List.exists_mem_cons_iff _ _ _

theorem sequence_exact (separate : Separate regions) (fits : ∀ range ∈ ranges,Fits range)
    (ran : ranges.foldlM reserve regions = .ok result) : Remains regions (taken ranges) result := by
  induction ranges generalizing regions with
  | nil =>
      cases ran
      have nothing : taken [] = ∅ := by
        ext x
        exact ⟨fun ⟨_,member,_⟩ => absurd member List.not_mem_nil,fun none => absurd none (Set.notMem_empty x)⟩
      rw [nothing]
      exact remains_all separate
  | cons range rest ih =>
      rw [List.foldlM_cons] at ran
      cases first : reserve regions range with
      | error fault => rw [first] at ran; cases ran
      | ok middle =>
          rw [first] at ran
          have one := reserve_exact separate (fits range List.mem_cons_self) first
          rw [taken_cons]
          exact one.trans (ih one.separate (fun range member => fits range (List.mem_cons_of_mem _ member)) ran)

theorem sequence_returns (separate : Separate regions) (fits : ∀ range ∈ ranges,Fits range)
    (room : regions.length + ranges.length ≤ maxMemoryRegions) : ∃ result,ranges.foldlM reserve regions = .ok result := by
  induction ranges generalizing regions with
  | nil => exact ⟨regions,rfl⟩
  | cons range rest ih =>
      rw [List.length_cons] at room
      obtain ⟨middle,first,longer⟩ := reserve_returns separate (fits range List.mem_cons_self) (by omega)
      have one := reserve_exact separate (fits range List.mem_cons_self) first
      rw [List.foldlM_cons,first]
      exact ih one.separate (fun range member => fits range (List.mem_cons_of_mem _ member)) (by omega)

end Sequence

-- The memory that is in use when the kernel starts. The texts include their zero byte.
inductive Occupied (m : Memory) (mbi kernelStart kernelEnd : Nat) : Nat × Nat → Prop where
  | low : Occupied m mbi kernelStart kernelEnd (0,0x100000)
  | block : Occupied m mbi kernelStart kernelEnd (mbi,mbi + totalSize m mbi)
  | kernel : Occupied m mbi kernelStart kernelEnd (kernelStart,kernelEnd)
  | module : Visits (moreTags m mbi) (nextTag m) (firstTag mbi) list → tag ∈ list → typeOf m tag = moduleType →
      Occupied m mbi kernelStart kernelEnd (modStart m tag,modEnd m tag)
  | text : Visits (moreTags m mbi) (nextTag m) (firstTag mbi) list → tag ∈ list → text ∈ textsOf m tag → TextLength m text length →
      Occupied m mbi kernelStart kernelEnd (text,text + length + 1)

section Run
variable {m : Memory} {turns mbi kernelStart kernelEnd : Nat} {usable regions : List MemoryRegion} {range : Nat × Nat}

theorem text_length_unique (one : TextLength m text first) (two : TextLength m text second) : first = second := by
  rcases Nat.lt_trichotomy first second with less | same | more
  · exact absurd one.1 (two.2 first less)
  · exact same
  · exact absurd two.1 (one.2 second more)

theorem add64_fits (text length : Nat) (fits : Fits (text,text + length + 1)) : add64 (add64 text length) 1 = text + length + 1 := by
  unfold Fits at fits
  unfold add64
  omega

-- A run that returns has reserved what is occupied, and nothing else.
theorem occupied_reserved (fits : ∀ range,Occupied m mbi kernelStart kernelEnd range → Fits range)
    (ran : (reserveMultiboot2Data m turns mbi kernelStart kernelEnd usable).result = .ok regions) :
    ∃ ranges : List (Nat × Nat),ranges.foldlM reserve usable = .ok regions ∧ ∀ range,range ∈ ranges ↔ Occupied m mbi kernelStart kernelEnd range := by
  rw [reserve_eq] at ran
  obtain ⟨middle,fixed,walked⟩ := Traced.bind_ok ran
  obtain ⟨list,visits,few⟩ := walk_visits walked
  rw [walk_sweep visits few] at walked
  have each := @sweep_each _ _ _ _ _ _ _ (fun _ => True) walked fun _ _ => trivial
  have texts : ∀ text,∃ length,∀ tag ∈ list,text ∈ textsOf m tag → TextLength m text length ∧ length ≤ turns := by
    intro text
    by_cases used : ∃ tag ∈ list,text ∈ textsOf m tag
    · obtain ⟨tag,here,listed⟩ := used
      obtain ⟨before,_,returned,_⟩ := each tag here
      obtain ⟨length,less,ends⟩ := reserveTag_ends returned text listed
      exact ⟨length,fun _ _ _ => ⟨ends,less⟩⟩
    · exact ⟨0,fun tag here listed => absurd ⟨tag,here,listed⟩ used⟩
  choose length ends using texts
  refine ⟨fixedRanges m mbi kernelStart kernelEnd ++ list.flatMap (rangesOf m length),?_,fun range => ?_⟩
  · rw [List.foldlM_append]
    have start : (fixedRanges m mbi kernelStart kernelEnd).foldlM reserve usable = .ok middle := fixed
    rw [start,← walked,sweep_result]
    show (list.flatMap (rangesOf m length)).foldlM reserve middle = _
    rw [← foldlM_flatMap]
    refine (foldlM_congr (fun tag here regions => ?_) middle).symm
    rw [reserveTag_eq fun text listed => ends text tag here listed]
  · have whole : endTag m mbi = mbi + totalSize m mbi := by
      have room := fits _ .block
      unfold Fits at room
      exact add64_of_lt (by omega)
    rw [List.mem_append]
    constructor
    · rintro (member | member)
      · unfold fixedRanges at member
        rcases List.mem_cons.mp member with rfl | member
        · exact .low
        rcases List.mem_cons.mp member with rfl | member
        · rw [whole]
          exact .block
        · rw [List.mem_singleton.mp member]
          exact .kernel
      · obtain ⟨tag,here,member⟩ := List.mem_flatMap.mp member
        rcases List.mem_append.mp member with member | member
        · split at member
          case isTrue loaded =>
            rw [List.mem_singleton.mp member]
            exact .module visits here loaded
          case isFalse => exact absurd member List.not_mem_nil
        · obtain ⟨text,listed,rfl⟩ := List.mem_map.mp member
          have occupied : Occupied m mbi kernelStart kernelEnd (text,text + length text + 1) :=
            .text visits here listed (ends text tag here listed).1
          unfold textRange
          rw [add64_fits text (length text) (fits _ occupied)]
          exact occupied
    · intro occupied
      cases occupied with
      | low => exact .inl List.mem_cons_self
      | block =>
          rw [← whole]
          exact .inl (List.mem_cons_of_mem _ List.mem_cons_self)
      | kernel => exact .inl (List.mem_cons_of_mem _ (List.mem_cons_of_mem _ List.mem_cons_self))
      | @module others tag again here loaded =>
          rw [again.unique visits] at here
          refine .inr (List.mem_flatMap.mpr ⟨tag,here,List.mem_append_left _ ?_⟩)
          rw [if_pos loaded]
          exact List.mem_singleton_self _
      | @text others tag text size again here listed ended =>
          have occupied : Occupied m mbi kernelStart kernelEnd (text,text + size + 1) := .text again here listed ended
          have added := add64_fits text size (fits _ occupied)
          rw [again.unique visits] at here
          have same : size = length text := text_length_unique ended (ends text tag here listed).1
          refine .inr (List.mem_flatMap.mpr ⟨tag,here,List.mem_append_right _ (List.mem_map.mpr ⟨text,listed,?_⟩)⟩)
          unfold textRange
          rw [← same,added]

end Run

-- The regions that are left go to the buddy allocator.
def feedBuddy (buddy : BuddyAllocator.State) (regions : List MemoryRegion) : BuddyAllocator.State :=
  regions.foldl (fun buddy region => BuddyAllocator.addRegion buddy region.base region.size) (BuddyAllocator.clear buddy)

-- initialize, before its first allocation.
def initializeMemory (m : Memory) (turns mbi kernelStart kernelEnd : Nat) (lists : Nat → List Nat) : Walk BuddyAllocator.State :=
  (parseMultiboot2MemoryMap m turns mbi []).bind fun usable =>
    (reserveMultiboot2Data m turns mbi kernelStart kernelEnd usable).bind fun regions =>
      .pure (feedBuddy ⟨lists,m⟩ regions)

-- The blocks that add_region pushes for the regions.
def handed (regions : List MemoryRegion) : List Block :=
  regions.flatMap fun region => BuddyAllocator.Region.blocks ⟨region.base,region.size⟩

structure Sound (m : Memory) (mbi kernelStart kernelEnd : Nat) (usable : List MemoryRegion) (b : Block) : Prop where
  inside : ∃ region ∈ usable,∀ x,b.Contains x → x ∈ region.cells
  apart : ∀ range,Occupied m mbi kernelStart kernelEnd range → ∀ x,b.Contains x → ¬ (range.1 ≤ x ∧ x < range.2)

section Blocks
variable {m : Memory} {mbi kernelStart kernelEnd : Nat} {usable regions : List MemoryRegion} {region : MemoryRegion} {b : Block}
  {buddy : BuddyAllocator.State} {blocks : List Block}

theorem feedBuddy_pushes (buddy : BuddyAllocator.State) (regions : List MemoryRegion) :
    feedBuddy buddy regions = (handed regions).foldl BuddyAllocator.push (BuddyAllocator.clear buddy) := by
  have same := BuddyAllocator.addRegions_pushes (BuddyAllocator.clear buddy)
    (regions.map fun region => (⟨region.base,region.size⟩ : BuddyAllocator.Region))
  rw [List.flatMap_map] at same
  unfold BuddyAllocator.addRegions at same
  rw [List.foldl_map] at same
  exact same

theorem pushed_block (listed : base ∈ (blocks.foldl BuddyAllocator.push buddy).freeLists order) :
    ⟨base,order⟩ ∈ blocks ∨ base ∈ buddy.freeLists order := by
  induction blocks generalizing buddy with
  | nil => exact .inr listed
  | cons b rest ih =>
      rw [List.foldl_cons] at listed
      rcases ih listed with later | listed
      · exact .inl (List.mem_cons_of_mem _ later)
      · unfold BuddyAllocator.push BuddyAllocator.pushFreeBlock BuddyAllocator.setList at listed
        dsimp only at listed
        by_cases here : order = b.order
        · rw [if_pos here] at listed
          by_cases zero : b.base = 0
          · rw [if_pos zero] at listed
            cases listed
          · rw [if_neg zero] at listed
            rcases List.mem_cons.mp listed with same | earlier
            · rw [same,here]
              exact .inl List.mem_cons_self
            · rw [here]
              exact .inr earlier
        · rw [if_neg here] at listed
          exact .inr listed

theorem push_keeps (listed : base ∈ buddy.freeLists order) (nonzero : ∀ b ∈ blocks,b.base ≠ 0) :
    base ∈ (blocks.foldl BuddyAllocator.push buddy).freeLists order := by
  induction blocks generalizing buddy with
  | nil => exact listed
  | cons b rest ih =>
      rw [List.foldl_cons]
      refine ih ?_ fun b member => nonzero b (List.mem_cons_of_mem _ member)
      unfold BuddyAllocator.push BuddyAllocator.pushFreeBlock BuddyAllocator.setList
      dsimp only
      by_cases here : order = b.order
      · rw [if_pos here,if_neg (nonzero b List.mem_cons_self),← here]
        exact List.mem_cons_of_mem _ listed
      · rw [if_neg here]
        exact listed

theorem fed_handed (b : Block) (free : b ∈ BuddyAllocator.freeBlocks (feedBuddy buddy regions).freeLists) : b ∈ handed regions := by
  rw [feedBuddy_pushes] at free
  rcases pushed_block (BuddyAllocator.mem_freeBlocks.mp free).2 with pushed | listed
  · exact pushed
  · exact absurd listed List.not_mem_nil

-- A region that is left is outside of what was taken, and inside one that was usable.
theorem remains_sound {ranges : List (Nat × Nat)} (remains : Remains usable (taken ranges) regions)
    (same : ∀ range,range ∈ ranges ↔ Occupied m mbi kernelStart kernelEnd range) (fits : ∀ range ∈ ranges,Fits range)
    (member : region ∈ regions) (inside : ∀ x,b.Contains x → x ∈ region.cells) : Sound m mbi kernelStart kernelEnd usable b := by
  constructor
  · obtain ⟨outer,usable,within⟩ := remains.within region member
    exact ⟨outer,usable,fun x here => within (inside x here)⟩
  · intro range occupied x here ⟨above,below⟩
    have listed := (same range).mpr occupied
    have left : x ∈ covered MemoryRegion.cells regions := ⟨region,member,inside x here⟩
    rw [remains.exact] at left
    have some : range.1 < range.2 := Nat.lt_of_le_of_lt above below
    obtain ⟨low,high,_⟩ := range_bounds some (fits range listed)
    exact left.2 ⟨range,listed,some,low.trans above,Nat.lt_of_lt_of_le below high⟩

theorem handed_sound {ranges : List (Nat × Nat)} (remains : Remains usable (taken ranges) regions)
    (same : ∀ range,range ∈ ranges ↔ Occupied m mbi kernelStart kernelEnd range) (fits : ∀ range ∈ ranges,Fits range)
    (pages : ∀ region ∈ regions,region.base + 4096 ≤ 2^64) : ∀ b ∈ handed regions,Sound m mbi kernelStart kernelEnd usable b := by
  intro b present
  obtain ⟨region,member,here⟩ := List.mem_flatMap.mp present
  have nonzero : ¬ BuddyAllocator.Region.Contains ⟨region.base,region.size⟩ 0 := by
    intro zero
    have left : 0 ∈ covered MemoryRegion.cells regions := ⟨region,member,zero⟩
    rw [remains.exact] at left
    exact left.2 ⟨_,(same _).mpr .low,by decide,by decide,by decide⟩
  have inner := (BuddyAllocator.region_blocks nonzero (remains.separate.unwrapped region member) (pages region member)).1 b here
  exact remains_sound remains same fits member inner.inside

end Blocks

-- The regions that are left are the usable ones less what was reserved, whatever the order.
-- A region that starts in the last page is handed on as one that starts at 0.
theorem boot_memory_exact (m : Memory) (turns mbi kernelStart kernelEnd : Nat) (lists : Nat → List Nat)
    (usable regions : List MemoryRegion) (separate : Separate usable)
    (fits : ∀ range,Occupied m mbi kernelStart kernelEnd range → Fits range)
    (ran : (reserveMultiboot2Data m turns mbi kernelStart kernelEnd usable).result = .ok regions) :
    (∀ (list : List MemoryRegion) (ranges : List (Nat × Nat)),Separate list → (∀ range ∈ ranges,Fits range) →
        (list.length + ranges.length ≤ maxMemoryRegions → ∃ result,ranges.foldlM reserve list = .ok result) ∧
          ∀ result,ranges.foldlM reserve list = .ok result → Separate result ∧
            covered MemoryRegion.cells result = covered MemoryRegion.cells list \ taken ranges) ∧
      (((∀ b ∈ handed regions,Sound m mbi kernelStart kernelEnd usable b) ∧
          ∀ b ∈ BuddyAllocator.freeBlocks (feedBuddy ⟨lists,m⟩ regions).freeLists,Sound m mbi kernelStart kernelEnd usable b) ↔
        ∀ region ∈ usable,region.base + 4096 ≤ 2^64) := by
  refine ⟨fun list ranges separate fits => ⟨sequence_returns separate fits,fun result done => ?_⟩,?_⟩
  · have remains := sequence_exact separate fits done
    exact ⟨remains.separate,remains.exact⟩
  · obtain ⟨ranges,reserved,same⟩ := occupied_reserved fits ran
    have fit : ∀ range ∈ ranges,Fits range := fun range member => fits range ((same range).mp member)
    have remains := sequence_exact separate fit reserved
    constructor
    · rintro ⟨sound,_⟩ region member
      by_contra last
      have wraps : 18446744073709551616 < region.base + 4096 := Nat.lt_of_not_le last
      have left := remains.last region member wraps
      obtain ⟨order,first⟩ := BuddyAllocator.wrapped_first
        ⟨⟨region.base,region.size⟩,by dsimp only; omega,separate.unwrapped region member⟩ wraps
      have zero := sound ⟨0,order⟩ (List.mem_flatMap.mpr ⟨region,left,first⟩)
      exact zero.apart _ .low 0 (contains_base _) ⟨Nat.zero_le _,by decide⟩
    · intro low
      have sound := handed_sound remains same fit (remains.pages low)
      exact ⟨sound,fun b free => sound b (fed_handed b free)⟩

-- A block at 4096 whose memory map has one usable entry, of 50 bytes in the last page.
def lastPageBlock : Memory := fun x =>
  if 4096 ≤ x then
    ([56,0,0,0,0,0,0,0,6,0,0,0,40,0,0,0,24,0,0,0,0,0,0,0,0x9c,255,255,255,255,255,255,255,50,0,0,0,0,0,0,0,1,0,0,0,0,0,0,0,
      0,0,0,0,8] : List UInt8).getD (x - 4096) 0
  else 0

def lastPage : MemoryRegion := ⟨18446744073709551516,50⟩

theorem lastPage_visits : Visits (moreTags lastPageBlock 4096) (nextTag lastPageBlock) (firstTag 4096) [4104,4144] :=
  .visit (by decide) (.visit (by decide) (.stop (by decide)))

theorem lastPage_fits (occupied : Occupied lastPageBlock 4096 0x100000 0x200000 range) : Fits range := by
  have plain : ∀ tag ∈ [4104,4144],typeOf lastPageBlock tag ≠ moduleType ∧ textsOf lastPageBlock tag = [] := by decide
  cases occupied with
  | low => decide
  | block => decide
  | kernel => decide
  | module visits here loaded =>
      rw [visits.unique lastPage_visits] at here
      exact absurd loaded (plain _ here).1
  | text visits here listed ended =>
      rw [visits.unique lastPage_visits] at here
      rw [(plain _ here).2] at listed
      cases listed

theorem reserve_skips {start fin : Nat} (skips : Skips (alignDown start pageSize) (alignUp fin pageSize) region) :
    reserve [region] (start,fin) = .ok [region] := by
  unfold reserve reserveRange
  split
  · rfl
  · rw [reserveLoop,if_pos skips,reserveLoop]
    rfl

theorem lastPage_reserved (region : MemoryRegion) (high : 0x200000 ≤ region.base) :
    (reserveMultiboot2Data lastPageBlock 8 4096 0x100000 0x200000 [region]).result = .ok [region] := by
  have skips : ∀ range ∈ fixedRanges lastPageBlock 4096 0x100000 0x200000,alignUp range.2 pageSize ≤ 0x200000 := by decide
  have each : ∀ range ∈ fixedRanges lastPageBlock 4096 0x100000 0x200000,reserve [region] range = .ok [region] :=
    fun range member => reserve_skips (.inl ((skips range member).trans high))
  have fixed : (fixedRanges lastPageBlock 4096 0x100000 0x200000).foldlM reserve [region] = .ok [region] := by
    unfold fixedRanges at each ⊢
    rw [List.foldlM_cons,each _ List.mem_cons_self]
    show ([(4096,_),(0x100000,0x200000)] : List (Nat × Nat)).foldlM reserve [region] = _
    rw [List.foldlM_cons,each _ (List.mem_cons_of_mem _ List.mem_cons_self)]
    show ([(0x100000,0x200000)] : List (Nat × Nat)).foldlM reserve [region] = _
    rw [List.foldlM_cons,each _ (List.mem_cons_of_mem _ (List.mem_cons_of_mem _ List.mem_cons_self))]
    rfl
  rw [reserve_eq,fixed]
  rfl

-- Memory from 2 MiB to 4 MiB stays as it is, behind a kernel that ends at 2 MiB.
theorem boot_memory_low :
    (∀ b ∈ handed [⟨0x200000,0x200000⟩],Sound lastPageBlock 4096 0x100000 0x200000 [⟨0x200000,0x200000⟩] b) ∧
      ∀ b ∈ BuddyAllocator.freeBlocks (feedBuddy ⟨fun _ => [],lastPageBlock⟩ [⟨0x200000,0x200000⟩]).freeLists,
        Sound lastPageBlock 4096 0x100000 0x200000 [⟨0x200000,0x200000⟩] b :=
  (boot_memory_exact lastPageBlock 8 4096 0x100000 0x200000 (fun _ => []) [⟨0x200000,0x200000⟩] [⟨0x200000,0x200000⟩]
    ⟨List.pairwise_singleton _ _,by decide⟩ (fun _ => lastPage_fits) (lastPage_reserved _ (Nat.le_refl _))).2.mpr (by decide)

-- The loop of add_region starts over at 0: a block at 0, which ends its list, and one of
-- 2 GiB at 2^63, where nothing was reported.
theorem lastPage_blocks : ∃ first rest,handed [lastPage] = ⟨0,first⟩ :: ⟨9223372036854775808,31⟩ :: rest ∧ ∀ b ∈ rest,b.base ≠ 0 := by
  have wrapped := BuddyAllocator.wrapped_blocks ⟨⟨18446744073709551516,50⟩,by decide,by decide⟩ (by decide)
  have whole : BuddyAllocator.regionBlockSize 0 18446744073709547520 = 9223372036854775808 := by
    unfold BuddyAllocator.regionBlockSize
    have floor : floorPow2 (18446744073709547520 - 0) = 9223372036854775808 := by decide
    rw [floor,BuddyAllocator.shrinkBlock,if_neg (by decide)]
    rfl
  have half : BuddyAllocator.regionBlockSize 9223372036854775808 18446744073709547520 = 2^62 := by
    unfold BuddyAllocator.regionBlockSize
    have floor : floorPow2 (18446744073709547520 - 9223372036854775808) = 2^62 := by decide
    rw [floor,BuddyAllocator.shrinkBlock,if_neg (by decide)]
    rfl
  have order := @BuddyAllocator.orderForBlockSize_pow 62 (by decide) (by decide)
  refine ⟨BuddyAllocator.orderForBlockSize 9223372036854775808,
    BuddyAllocator.pushedBlocks (9223372036854775808 + 2^62) 18446744073709547520,?_,fun b later => ?_⟩
  · have same : handed [lastPage] = BuddyAllocator.pushedBlocks 0 18446744073709547520 := by
      unfold handed
      rw [List.flatMap_singleton]
      exact wrapped
    rw [same,BuddyAllocator.pushedBlocks,if_pos (by decide),whole,Nat.zero_add,BuddyAllocator.pushedBlocks,if_pos (by decide),half,order]
    rfl
  · have above := BuddyAllocator.pushed_above _ _ b later
    omega

theorem last_page_handed_out :
    (parseMultiboot2MemoryMap lastPageBlock 8 4096 []).result = .ok [lastPage] ∧ Separate [lastPage] ∧
      (∀ range,Occupied lastPageBlock 4096 0x100000 0x200000 range → Fits range) ∧
      ∃ buddy,(initializeMemory lastPageBlock 8 4096 0x100000 0x200000 fun _ => []).result = .ok buddy ∧
        ¬ ∀ b ∈ BuddyAllocator.freeBlocks buddy.freeLists,Sound lastPageBlock 4096 0x100000 0x200000 [lastPage] b := by
  have parsed : (parseMultiboot2MemoryMap lastPageBlock 8 4096 []).result = .ok [lastPage] := by decide
  refine ⟨parsed,⟨List.pairwise_singleton _ _,by decide⟩,fun _ => lastPage_fits,feedBuddy ⟨fun _ => [],lastPageBlock⟩ [lastPage],?_,?_⟩
  · unfold initializeMemory
    rw [Traced.bind_result,parsed]
    show Traced.result _ = _
    rw [Traced.bind_result,lastPage_reserved lastPage (by decide)]
    rfl
  · intro sound
    obtain ⟨first,rest,blocks,nonzero⟩ := lastPage_blocks
    have free : (⟨9223372036854775808,31⟩ : Block) ∈
        BuddyAllocator.freeBlocks (feedBuddy ⟨fun _ => [],lastPageBlock⟩ [lastPage]).freeLists := by
      rw [BuddyAllocator.mem_freeBlocks,feedBuddy_pushes,blocks,List.foldl_cons,List.foldl_cons]
      refine ⟨by decide,push_keeps ?_ nonzero⟩
      unfold BuddyAllocator.push BuddyAllocator.pushFreeBlock BuddyAllocator.setList
      exact List.mem_cons_self
    obtain ⟨region,member,inside⟩ := (sound _ free).inside
    rw [List.mem_singleton.mp member] at inside
    have low : lastPage.base ≤ 9223372036854775808 := (inside _ (contains_base _)).1
    exact absurd low (by decide)

end BootInformation
