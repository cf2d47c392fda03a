import Gameos.BuddySteps

namespace BuddyAllocator
open MachineWords ByteMemory AllocatorTypes DyadicBlocks

structure Region where
  base : Nat
  size : Nat
deriving DecidableEq, Repr

namespace Region

def Contains (r : Region) (x : Nat) : Prop := r.base ≤ x ∧ x < r.base + r.size

-- Addresses whose whole page lies in the region; add_region drops the rest.
def Holds (r : Region) (x : Nat) : Prop :=
  r.base ≤ x/pageSize*pageSize ∧ x/pageSize*pageSize + pageSize ≤ r.base + r.size

end Region

-- Sizes of the blocks that addRegionLoop pushes, in its order.
def regionPieces (current fin : Nat) : List Nat :=
  if current < fin then
    regionBlockSize current fin :: regionPieces (current + regionBlockSize current fin) fin
  else []
termination_by fin - current
decreasing_by have := regionBlockSize_page current fin; simp only [pageSize] at *; omega

def Region.pieces (r : Region) : List Nat :=
  regionPieces (alignUp r.base pageSize) (alignDown (add64 r.base r.size) pageSize)

structure Admissible (regions : List Region) : Prop where
  apart : regions.Pairwise fun a b => ∀ x, a.Contains x → ¬ b.Contains x
  nonzero : ∀ r ∈ regions, ¬ r.Contains 0
  unwrapped : ∀ r ∈ regions, r.base + r.size < 2^64
  pieces : ∀ r ∈ regions, ∀ size ∈ r.pieces, size ≤ 2^31

def addRegions (state : State) (regions : List Region) : State :=
  regions.foldl (fun state r => addRegion state r.base r.size) state

def regionCells (regions : List Region) : Set Nat := {x | ∃ r ∈ regions, r.Holds x}

theorem shrinkBlock_spec (current k : Nat) (large : minOrder ≤ k) :
    ∃ j, minOrder ≤ j ∧ j ≤ k ∧ shrinkBlock current (2^k) = 2^j ∧ (pageSize ∣ current → 2^j ∣ current) := by
  induction k with
  | zero => simp [minOrder] at large
  | succ k ih =>
    have page : pageSize = 2^minOrder := by decide
    by_cases more : pageSize < 2^(k+1) ∧ current &&& (2^(k+1)-1) ≠ 0
    · have above : minOrder ≤ k := by
        rw [page] at more
        have exponent := (Nat.pow_lt_pow_iff_right (by decide)).mp more.1
        omega
      obtain ⟨j,low,high,size,multiple⟩ := ih above
      have half : 2^(k+1) / 2 = 2^k := by rw [Nat.pow_succ]; omega
      rw [shrinkBlock,if_pos more,half]
      exact ⟨j,low,by omega,size,multiple⟩
    · rw [shrinkBlock,if_neg more]
      refine ⟨k+1,large,Nat.le_refl _,rfl,?_⟩
      intro whole
      rw [not_and_or,not_not,Nat.and_two_pow_sub_one_eq_mod] at more
      rcases more with single | multiple
      · have equal : 2^(k+1) = pageSize := Nat.le_antisymm (by omega) (page ▸ Nat.pow_le_pow_right (by decide) large)
        rwa [equal]
      · exact Nat.dvd_of_mod_eq_zero multiple

-- Each pushed block is a power of two from one page up, aligned to its own
-- size and inside what is left of the region.
theorem regionBlockSize_spec (below : current < fin) (small : fin < 2^64) (start : pageSize ∣ current)
    (stop : pageSize ∣ fin) :
    ∃ k, minOrder ≤ k ∧ k < 64 ∧ regionBlockSize current fin = 2^k ∧ 2^k ∣ current ∧ current + 2^k ≤ fin := by
  have gap : pageSize ≤ fin - current := Nat.le_of_dvd (by omega) (Nat.dvd_sub stop start)
  have positive : fin - current ≠ 0 := by omega
  have floor := floorPow2_log2 positive (by omega)
  have fits := Nat.log2_self_le positive
  have large : minOrder ≤ (fin-current).log2 := (Nat.le_log2 positive).mpr gap
  obtain ⟨j,low,high,size,multiple⟩ := shrinkBlock_spec current _ large
  have narrow : 2^j ≤ 2^(fin-current).log2 := Nat.pow_le_pow_right (by decide) high
  have page : pageSize ≤ 2^j := page_le_block low
  refine ⟨j,low,?_,?_,multiple start,by omega⟩
  · have width := (Nat.log2_lt positive).mpr (by omega : fin - current < 2^64)
    omega
  · simp only [regionBlockSize,floor,size]
    rw [if_neg (by omega)]

section Holding
variable {hand : List Block} {state : State} {allocations : List Live} {cells : Set Nat} {b : Block}

theorem Holding.cells_eq (holding : Holding hand state allocations cells) (same : ∀ x, x ∈ cells' ↔ x ∈ cells) :
    Holding hand state allocations cells' := by
  have equal : cells' = cells := Set.ext same
  rwa [equal]

theorem Holding.extend (holding : Holding hand state allocations cells) (aligned : b.Aligned)
    (orders : minOrder ≤ b.order ∧ b.order ≤ maxOrder)
    (bounded : pageSize ≤ b.base ∧ b.base + 2^b.order ≤ 2^64 - pageSize)
    (fresh : ∀ x, b.Contains x → x ∉ cells) :
    Holding (b :: hand) state allocations (cells ∪ {x | b.Contains x}) := by
  refine ⟨?_,⟨?_,?_,?_⟩,?_,holding.placed,holding.linked⟩
  · rintro x (old | new)
    · exact holding.bounded x old
    · obtain ⟨low,high⟩ := new
      omega
  · intro c present
    rcases List.mem_cons.mp present with rfl | old
    · exact aligned
    · exact holding.tiling.aligned c old
  · refine List.pairwise_cons.mpr ⟨?_,holding.tiling.apart⟩
    intro c present x inB inC
    exact fresh x inB ((holding.tiling.exact x).mpr ⟨c,present,inC⟩)
  · intro x
    simp only [List.cons_append,List.exists_mem_cons_iff,Set.mem_union,Set.mem_ofPred_eq]
    rw [holding.tiling.exact x,or_comm]
  · intro c present
    rcases List.mem_cons.mp present with rfl | old
    · exact orders
    · exact holding.orders c old

-- Induction follows the loop; the cells gained so far end at `current`.
theorem Holding.addRegionLoop (holding : Holding hand state allocations cells) (low : pageSize ≤ current)
    (high : fin ≤ 2^64 - pageSize) (start : pageSize ∣ current) (stop : pageSize ∣ fin)
    (small : ∀ size ∈ regionPieces current fin, size ≤ 2^31)
    (fresh : ∀ x, current ≤ x → x < fin → x ∉ cells) :
    Holding hand (addRegionLoop current fin state) allocations (cells ∪ {x | current ≤ x ∧ x < fin}) := by
  induction current, state using addRegionLoop.induct fin generalizing cells with
  | case1 current state more ih =>
    obtain ⟨k,page,width,size,multiple,inside⟩ := regionBlockSize_spec more
      (by simp only [pageSize] at high; omega) start stop
    rw [regionPieces,if_pos more,size] at small
    rw [BuddyAllocator.addRegionLoop,if_pos more,size]
    rw [size] at ih
    have unit : 2^k ≤ 2^31 := small (2^k) (by simp)
    have exponent : k ≤ 31 := (Nat.pow_le_pow_iff_right (by decide)).mp unit
    have order : orderForBlockSize (2^k) = k := by
      rw [orderForBlockSize_pow width page]; omega
    rw [order] at ih ⊢
    have positive : 0 < 2^k := Nat.two_pow_pos _
    have grown := (holding.extend (b:=⟨current,k⟩) multiple ⟨page,by simp only [maxOrder]; omega⟩
      ⟨low,by show current + 2^k ≤ 2^64 - pageSize; omega⟩ (fun x here => fresh x here.1 (by have last : x < current + 2^k := here.2; omega))).push
    have rest := ih grown (by omega) (Nat.dvd_add start (Nat.dvd_trans (Nat.pow_dvd_pow 2 page) (Nat.dvd_refl _)))
      (fun s later => small s (by simp [later])) (by
        rintro x after before (old | new)
        · exact fresh x (by omega) before old
        · have last : x < current + 2^k := new.2
          omega)
    apply rest.cells_eq
    intro x
    simp only [Set.mem_union,Set.mem_ofPred_eq,Block.Contains,or_assoc]
    apply or_congr_right
    omega
  | case2 current state stop =>
    rw [BuddyAllocator.addRegionLoop,if_neg stop]
    apply holding.cells_eq
    intro x
    simp only [Set.mem_union,Set.mem_ofPred_eq]
    constructor
    · rintro (old | ⟨low,high⟩)
      · exact old
      · omega
    · exact .inl

end Holding

section Region
variable {r : Region} {regions : List Region} {state : State} {allocations : List Live} {cells : Set Nat}

-- A start that wraps to address 0 leaves a region whose first block is 2^63.
theorem start_unwrapped (bounded : r.base + r.size < 2^64) (small : ∀ size ∈ r.pieces, size ≤ 2^31) :
    r.base + pageSize ≤ 2^64 := by
  by_contra wraps
  have sum : add64 r.base r.size = r.base + r.size := add64_of_lt bounded
  have up : alignUp r.base pageSize = 0 :=
    alignUp_wraps r.base 12 (by omega) (by decide) (by simp only [pageSize] at wraps; omega)
  have down : alignDown (add64 r.base r.size) pageSize = 2^64 - pageSize := by
    obtain ⟨below,above,q,exact⟩ := alignDown_bounds (add64 r.base r.size) 12 (by omega) (by decide)
    rw [show (2:Nat)^12 = pageSize from rfl] at below above exact
    simp only [pageSize] at *
    omega
  have first : regionBlockSize 0 (2^64 - pageSize) = 2^63 := by decide +kernel
  have piece : 2^63 ∈ r.pieces := by
    rw [Region.pieces,up,down,regionPieces,if_pos (by decide),first]
    simp
  have bound := small _ piece
  omega

theorem region_bounds (bounded : r.base + r.size < 2^64) (low : r.base + pageSize ≤ 2^64) :
    pageSize ∣ alignUp r.base pageSize ∧ pageSize ∣ alignDown (add64 r.base r.size) pageSize ∧
      r.base ≤ alignUp r.base pageSize ∧ alignDown (add64 r.base r.size) pageSize ≤ r.base + r.size ∧
      ∀ x, r.Holds x ↔ alignUp r.base pageSize ≤ x ∧ x < alignDown (add64 r.base r.size) pageSize := by
  obtain ⟨above,close,q,up⟩ := alignUp_bounds r.base 12 (by decide) low
  obtain ⟨below,near,p,down⟩ := alignDown_bounds (add64 r.base r.size) 12 add64_lt (by decide)
  rw [show (2:Nat)^12 = pageSize from rfl] at above close up below near down
  rw [up] at above close ⊢
  rw [down] at below near ⊢
  rw [add64_of_lt bounded] at below near
  refine ⟨Nat.dvd_mul_right _ _,Nat.dvd_mul_right _ _,above,below,?_⟩
  intro x
  simp only [Region.Holds,pageSize] at *
  omega

theorem Holding.addRegion (partition : Partition state allocations cells)
    (nonzero : ¬ r.Contains 0) (bounded : r.base + r.size < 2^64) (small : ∀ size ∈ r.pieces, size ≤ 2^31)
    (fresh : ∀ x, r.Contains x → x ∉ cells) :
    Partition (addRegion state r.base r.size) allocations (cells ∪ {x | r.Holds x}) := by
  have low := start_unwrapped bounded small
  obtain ⟨start,stop,above,below,holds⟩ := region_bounds bounded low
  simp only [BuddyAllocator.addRegion]
  rw [Region.pieces] at small
  generalize alignUp r.base pageSize = current at *
  generalize alignDown (add64 r.base r.size) pageSize = fin at *
  simp only [Region.Contains] at nonzero fresh
  have equal : {x | r.Holds x} = {x | current ≤ x ∧ x < fin} := Set.ext holds
  rw [equal]
  by_cases empty : fin ≤ current
  · rw [if_pos empty]
    apply partition.cells_eq
    intro x
    simp only [Set.mem_union,Set.mem_ofPred_eq]
    constructor
    · rintro (old | ⟨low,high⟩)
      · exact old
      · omega
    · exact .inl
  · rw [if_neg empty]
    have positive : pageSize ≤ current := Nat.le_of_dvd (by omega) start
    have page : fin ≤ 2^64 - pageSize := by
      obtain ⟨q,rfl⟩ := stop
      simp only [pageSize] at *
      omega
    exact partition.addRegionLoop positive page start stop small
      (fun x after before => fresh x ⟨by omega,by omega⟩)

theorem holds_contains (holds : r.Holds x) : r.Contains x := by
  obtain ⟨low,high⟩ := holds
  simp only [pageSize] at low high
  exact ⟨by omega,by omega⟩

theorem empty_partition (memory : Memory) : Partition ⟨fun _ => [],memory⟩ [] (regionCells []) := by
  have none : allBlocks ⟨fun _ => [],memory⟩ [] = [] := by
    simp [allBlocks,freeBlocks]
  refine ⟨by simp [regionCells],⟨?_,?_,?_⟩,?_,by simp,fun _ _ => trivial⟩ <;> simp [none,regionCells]

theorem Holding.addRegions (admissible : Admissible regions) (partition : Partition state [] cells)
    (fresh : ∀ r ∈ regions, ∀ x, r.Contains x → x ∉ cells) :
    Partition (addRegions state regions) [] (cells ∪ regionCells regions) := by
  induction regions generalizing state cells with
  | nil =>
    apply Holding.cells_eq partition
    simp [regionCells]
  | cons r rest ih =>
    obtain ⟨here,later⟩ := List.pairwise_cons.mp admissible.apart
    have grown := partition.addRegion (admissible.nonzero r (by simp)) (admissible.unwrapped r (by simp))
      (admissible.pieces r (by simp)) (fresh r (by simp))
    have rest := ih ⟨later,fun s p => admissible.nonzero s (by simp [p]),
      fun s p => admissible.unwrapped s (by simp [p]),fun s p => admissible.pieces s (by simp [p])⟩ grown (by
        rintro s present x inside (old | new)
        · exact fresh s (by simp [present]) x inside old
        · exact here s present x (holds_contains new) inside)
    apply Holding.cells_eq rest
    intro x
    simp only [regionCells,Set.mem_union,Set.mem_ofPred_eq,List.exists_mem_cons_iff,or_assoc]

theorem booted_partition (admissible : Admissible regions) (memory : Memory) :
    Partition (addRegions ⟨fun _ => [],memory⟩ regions) [] (regionCells regions) := by
  apply Holding.cells_eq (Holding.addRegions admissible (empty_partition memory) (by simp [regionCells]))
  simp [regionCells]

end Region

end BuddyAllocator
