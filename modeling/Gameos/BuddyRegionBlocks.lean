import Gameos.BuddyRegions

-- What one add_region pushes.
namespace BuddyAllocator
open MachineWords AllocatorTypes DyadicBlocks

-- The loop of add_region, on u64 and with a bound on its turns.
def regionLoop : Nat → Nat → Nat → State → Option State
  | 0, _, _, _ => none
  | turns+1, current, fin, state =>
    if current < fin then
      let blockSize := regionBlockSize current fin
      regionLoop turns (add64 current blockSize) fin (pushFreeBlock state current (orderForBlockSize blockSize))
    else some state

-- The pushes in order, a block with the order of its list.
def pushedBlocks (current fin : Nat) : List Block :=
  if current < fin then
    ⟨current,orderForBlockSize (regionBlockSize current fin)⟩ :: pushedBlocks (current + regionBlockSize current fin) fin
  else []
termination_by fin - current
decreasing_by have := regionBlockSize_page current fin; simp only [pageSize] at *; omega

def push (state : State) (b : Block) : State := pushFreeBlock state b.base b.order

def Region.blocks (r : Region) : List Block :=
  pushedBlocks (alignUp r.base pageSize) (alignDown (add64 r.base r.size) pageSize)

-- From the base rounded up to a page to the end rounded down to one.
def Region.inner (r : Region) : Set Nat :=
  {x | (r.base + 4095) / 4096 * 4096 ≤ x ∧ x < (r.base + r.size) / 4096 * 4096}

-- A region that does not start at 0 and whose end is an address.
structure Usable where
  region : Region
  positive : 0 < region.base
  unwrapped : region.base + region.size < 18446744073709551616

-- The loop ends, it pushes these blocks on the lists of any state, and they tile the
-- inner addresses.
structure Lossless (r : Region) : Prop where
  ends : ∃ turns, ∀ state, regionLoop turns (alignUp r.base pageSize) (alignDown (add64 r.base r.size) pageSize) state =
    some (addRegion state r.base r.size)
  pushes : ∀ state, addRegion state r.base r.size = r.blocks.foldl push state
  tiles : Tiling r.blocks r.inner

section Loop
variable {current fin : Nat}

theorem regionLoop_ends (small : fin < 18446744073709551616) (start : pageSize ∣ current) (stop : pageSize ∣ fin)
    (state : State) (turns : Nat) (enough : fin - current < turns) :
    regionLoop turns current fin state = some (addRegionLoop current fin state) := by
  induction turns generalizing current state with
  | zero => omega
  | succ turns ih =>
      by_cases more : current < fin
      · obtain ⟨k,page,_,size,multiple,inside⟩ := regionBlockSize_spec more small start stop
        have unit : 0 < 2^k := Nat.two_pow_pos k
        have kept : add64 current (2^k) = current + 2^k := add64_of_lt (Nat.lt_of_le_of_lt inside small)
        have next : pageSize ∣ current + 2^k :=
          Nat.dvd_add start (Nat.dvd_trans (Nat.pow_dvd_pow 2 page) (Nat.dvd_refl _))
        rw [addRegionLoop,if_pos more]
        unfold regionLoop
        rw [if_pos more]
        dsimp only
        rw [size,kept]
        exact ih next _ (by omega)
      · rw [addRegionLoop,if_neg more]
        exact if_neg more

theorem addRegionLoop_pushes (current fin : Nat) (state : State) :
    addRegionLoop current fin state = (pushedBlocks current fin).foldl push state := by
  induction current, state using addRegionLoop.induct fin with
  | case1 current state more ih =>
      rw [addRegionLoop,if_pos more,pushedBlocks,if_pos more,List.foldl_cons]
      exact ih
  | case2 current state stop =>
      rw [addRegionLoop,if_neg stop,pushedBlocks,if_neg stop]
      rfl

theorem pushed_above (current fin : Nat) : ∀ b ∈ pushedBlocks current fin, current ≤ b.base := by
  induction current using pushedBlocks.induct fin with
  | case1 current more ih =>
      rw [pushedBlocks,if_pos more]
      intro b present
      rcases List.mem_cons.mp present with rfl | later
      · exact Nat.le_refl _
      · have above := ih b later
        omega
  | case2 current stop =>
      rw [pushedBlocks,if_neg stop]
      intro b present
      cases present

-- No aligned block of 4 GiB between the bounds.
def Narrow (current fin : Nat) : Prop := ∀ q, current ≤ q * 4294967296 → fin < (q + 1) * 4294967296

theorem narrow_order (narrow : Narrow current fin) (multiple : 2^k ∣ current) (inside : current + 2^k ≤ fin) : k ≤ 31 := by
  by_contra wide
  have divides : 2^32 ∣ 2^k := Nat.pow_dvd_pow 2 (by omega)
  obtain ⟨q,whole⟩ := Nat.dvd_trans divides multiple
  have large : (2:Nat)^32 ≤ 2^k := Nat.le_of_dvd (Nat.two_pow_pos k) divides
  have past := narrow q (by omega)
  omega

theorem pushed_tile (small : fin < 18446744073709551616) (start : pageSize ∣ current) (stop : pageSize ∣ fin)
    (narrow : Narrow current fin) : Tiling (pushedBlocks current fin) {x | current ≤ x ∧ x < fin} := by
  induction current using pushedBlocks.induct fin with
  | case1 current more ih =>
      obtain ⟨k,page,width,size,multiple,inside⟩ := regionBlockSize_spec more small start stop
      have unit : 0 < 2^k := Nat.two_pow_pos k
      have exponent := narrow_order narrow multiple inside
      have order : orderForBlockSize (2^k) = k := by
        rw [orderForBlockSize_pow width page]
        omega
      rw [size] at ih
      have next : pageSize ∣ current + 2^k :=
        Nat.dvd_add start (Nat.dvd_trans (Nat.pow_dvd_pow 2 page) (Nat.dvd_refl _))
      have rest := ih next fun q after => narrow q (by omega)
      rw [pushedBlocks,if_pos more,size,order]
      refine ⟨?_,List.pairwise_cons.mpr ⟨?_,rest.apart⟩,?_⟩
      · intro b present
        rcases List.mem_cons.mp present with rfl | later
        · exact multiple
        · exact rest.aligned b later
      · intro b later x here there
        have above := pushed_above _ _ b later
        have last : x < current + 2^k := here.2
        have first := there.1
        omega
      · intro x
        rw [List.exists_mem_cons_iff]
        have after := rest.exact x
        simp only [Set.mem_ofPred_eq] at after ⊢
        rw [← after]
        simp only [Block.Contains]
        omega
  | case2 current ends =>
      rw [pushedBlocks,if_neg ends]
      refine ⟨fun b present => absurd present List.not_mem_nil,.nil,fun x => ?_⟩
      simp only [Set.mem_ofPred_eq,List.not_mem_nil,false_and,exists_false,iff_false]
      omega

-- From an address of 4 GiB alignment the block stays that large.
theorem shrinkBlock_wide (current k : Nat) (wide : 32 ≤ k) (multiple : 2^32 ∣ current) :
    2^32 ≤ shrinkBlock current (2^k) := by
  induction k with
  | zero => omega
  | succ k ih =>
      have half : 2^(k+1) / 2 = 2^k := by
        rw [Nat.pow_succ]
        omega
      by_cases more : pageSize < 2^(k+1) ∧ current &&& (2^(k+1)-1) ≠ 0
      · rw [shrinkBlock,if_pos more,half]
        by_cases last : k = 31
        · subst last
          rw [Nat.and_two_pow_sub_one_eq_mod,Nat.mod_eq_zero_of_dvd multiple] at more
          exact absurd rfl more.2
        · exact ih (by omega)
      · rw [shrinkBlock,if_neg more]
        exact Nat.pow_le_pow_right (by decide) wide

theorem regionBlockSize_wide (small : fin < 18446744073709551616) (multiple : 2^32 ∣ current)
    (inside : current + 2^32 ≤ fin) : 2^32 ≤ regionBlockSize current fin := by
  have positive : fin - current ≠ 0 := by omega
  have floor := floorPow2_log2 positive (by omega)
  have large : 32 ≤ (fin-current).log2 := (Nat.le_log2 positive).mpr (by omega)
  have shrunk := shrinkBlock_wide current _ large multiple
  unfold regionBlockSize
  rw [floor]
  dsimp only
  split <;> omega

-- A block above 2^31 is pushed on list 31, and its rest on none.
theorem pushed_loses (small : fin < 18446744073709551616) (start : pageSize ∣ current) (stop : pageSize ∣ fin)
    (above : current ≤ q * 4294967296) (below : (q + 1) * 4294967296 ≤ fin) :
    ∃ x, current ≤ x ∧ x < fin ∧ ∀ b ∈ pushedBlocks current fin, ¬ b.Contains x := by
  induction current using pushedBlocks.induct fin with
  | case1 current more ih =>
      obtain ⟨k,page,width,size,multiple,inside⟩ := regionBlockSize_spec more small start stop
      have next : pageSize ∣ current + 2^k :=
        Nat.dvd_add start (Nat.dvd_trans (Nat.pow_dvd_pow 2 page) (Nat.dvd_refl _))
      rw [size] at ih
      by_cases wide : 32 ≤ k
      · have large : (2:Nat)^32 ≤ 2^k := Nat.pow_le_pow_right (by decide) wide
        refine ⟨current + 2^31,by omega,by omega,?_⟩
        intro b present inB
        rw [pushedBlocks,if_pos more,size,orderForBlockSize_pow width page,Nat.min_eq_right (by omega)] at present
        rcases List.mem_cons.mp present with rfl | later
        · have last : current + 2^31 < current + 2^31 := inB.2
          omega
        · have base := pushed_above _ _ b later
          have first := inB.1
          omega
      · have unit : 0 < 2^k := Nat.two_pow_pos k
        have apart : current + 2^k ≤ q * 4294967296 := by
          have divides : 2^k ∣ q * 4294967296 :=
            Dvd.dvd.mul_left (Nat.pow_dvd_pow 2 (show k ≤ 32 by omega)) q
          have gap : 2^k ∣ q * 4294967296 - current := Nat.dvd_sub divides multiple
          by_cases same : q * 4294967296 = current
          · have whole := regionBlockSize_wide small ⟨q,show current = 2^32 * q by omega⟩ (by omega)
            have short : (2:Nat)^k < 2^32 := Nat.pow_lt_pow_right (by decide) (by omega)
            omega
          · have room := Nat.le_of_dvd (by omega) gap
            omega
        obtain ⟨x,low,high,uncovered⟩ := ih next apart
        refine ⟨x,by omega,high,?_⟩
        intro b present inB
        rw [pushedBlocks,if_pos more,size] at present
        rcases List.mem_cons.mp present with rfl | later
        · have narrow : orderForBlockSize (2^k) ≤ k := by
            rw [orderForBlockSize_pow width page]
            exact Nat.min_le_left _ _
          have shorter : (2:Nat)^(orderForBlockSize (2^k)) ≤ 2^k := Nat.pow_le_pow_right (by decide) narrow
          have last : x < current + 2^(orderForBlockSize (2^k)) := inB.2
          omega
        · exact uncovered b later inB
  | case2 current ends => omega

end Loop

-- The bounds of the loop; a base in the last page wraps to address 0.
theorem region_start (u : Usable) (page : u.region.base + 4096 ≤ 18446744073709551616) :
    alignUp u.region.base pageSize = (u.region.base + 4095) / 4096 * 4096 :=
  alignUp_pow u.region.base 12 (by decide) page

theorem region_fin (u : Usable) :
    alignDown (add64 u.region.base u.region.size) pageSize = (u.region.base + u.region.size) / 4096 * 4096 := by
  have sum : add64 u.region.base u.region.size = u.region.base + u.region.size := add64_of_lt u.unwrapped
  rw [sum]
  exact alignDown_pow (u.region.base + u.region.size) 12 u.unwrapped (by decide)

theorem region_loop_ends (u : Usable) (start : pageSize ∣ alignUp u.region.base pageSize) :
    ∃ turns, ∀ state, regionLoop turns (alignUp u.region.base pageSize)
      (alignDown (add64 u.region.base u.region.size) pageSize) state =
        some (addRegion state u.region.base u.region.size) := by
  have bounded := u.unwrapped
  have fin := region_fin u
  refine ⟨alignDown (add64 u.region.base u.region.size) pageSize + 1,fun state => ?_⟩
  rw [regionLoop_ends (by omega) start ⟨(u.region.base + u.region.size) / 4096,by rw [fin,Nat.mul_comm]; rfl⟩ state _ (by omega)]
  unfold addRegion
  dsimp only
  split
  · rw [addRegionLoop,if_neg (by omega)]
  · rfl

theorem region_pushes (r : Region) (state : State) : addRegion state r.base r.size = r.blocks.foldl push state := by
  unfold addRegion Region.blocks
  dsimp only
  split
  · rw [pushedBlocks,if_neg (by omega)]
    rfl
  · exact addRegionLoop_pushes _ _ state

-- From the last page on, the loop starts over at address 0.
theorem wrapped_blocks (u : Usable) (wraps : 18446744073709551616 < u.region.base + 4096) :
    u.region.blocks = pushedBlocks 0 18446744073709547520 := by
  have unwrapped := u.unwrapped
  have start : alignUp u.region.base pageSize = 0 := alignUp_wraps u.region.base 12 (by omega) (by decide) wraps
  have fin : alignDown (add64 u.region.base u.region.size) pageSize = 18446744073709547520 := by
    rw [region_fin u]
    omega
  unfold Region.blocks
  rw [start,fin]

theorem wrapped_first (u : Usable) (wraps : 18446744073709551616 < u.region.base + 4096) :
    ∃ order,⟨0,order⟩ ∈ u.region.blocks := by
  rw [wrapped_blocks u wraps,pushedBlocks,if_pos (by decide)]
  exact ⟨_,List.mem_cons_self⟩

-- Nothing is lost or added where the region does not start in the last page and holds
-- no aligned block of 4 GiB.
theorem region_lossless (u : Usable) :
    Lossless u.region ↔
      u.region.base + 4096 ≤ 18446744073709551616 ∧
        ∀ q, u.region.base ≤ q * 4294967296 → u.region.base + u.region.size < (q + 1) * 4294967296 := by
  have positive := u.positive
  have unwrapped := u.unwrapped
  have fin := region_fin u
  have small : alignDown (add64 u.region.base u.region.size) pageSize < 18446744073709551616 := by omega
  have stop : pageSize ∣ alignDown (add64 u.region.base u.region.size) pageSize :=
    ⟨(u.region.base + u.region.size) / 4096,by rw [fin,Nat.mul_comm]; rfl⟩
  by_cases page : u.region.base + 4096 ≤ 18446744073709551616
  · have first := region_start u page
    have start : pageSize ∣ alignUp u.region.base pageSize :=
      ⟨(u.region.base + 4095) / 4096,by rw [first,Nat.mul_comm]; rfl⟩
    have inner : u.region.inner = {x | alignUp u.region.base pageSize ≤ x ∧
        x < alignDown (add64 u.region.base u.region.size) pageSize} := by
      rw [first,fin]
      rfl
    constructor
    · intro lossless
      refine ⟨page,fun q above => ?_⟩
      by_contra large
      obtain ⟨x,low,high,uncovered⟩ := pushed_loses small start stop
        (show alignUp u.region.base pageSize ≤ q * 4294967296 by omega) (by omega)
      have inside : x ∈ u.region.inner := by
        rw [inner]
        exact ⟨low,high⟩
      obtain ⟨b,present,here⟩ := (lossless.tiles.exact x).mp inside
      exact uncovered b present here
    · rintro ⟨_,narrow⟩
      refine ⟨region_loop_ends u start,region_pushes u.region,?_⟩
      rw [inner]
      refine pushed_tile small start stop fun q after => ?_
      have past := narrow q (by omega)
      omega
  · refine ⟨fun lossless => ?_,fun condition => absurd condition.1 page⟩
    obtain ⟨order,present⟩ := wrapped_first u (by omega)
    have inside := (lossless.tiles.exact 0).mpr ⟨_,present,contains_base _⟩
    have above : (u.region.base + 4095) / 4096 * 4096 ≤ 0 := inside.1
    omega

-- 4 GiB of memory at 4 GiB: half of it is on no list.
def fourGiB : Usable := ⟨⟨4294967296,4294967296⟩,by decide,by decide⟩

theorem wide_region_lost : ¬ Lossless fourGiB.region := by
  intro lossless
  have start : alignUp fourGiB.region.base pageSize = 4294967296 := region_start fourGiB (by decide)
  have fin : alignDown (add64 fourGiB.region.base fourGiB.region.size) pageSize = 8589934592 := region_fin fourGiB
  obtain ⟨x,low,high,uncovered⟩ :=
    @pushed_loses 4294967296 8589934592 1 (by decide) (by decide) (by decide) (by decide) (by decide)
  have inside : x ∈ fourGiB.region.inner := ⟨low,high⟩
  obtain ⟨b,present,here⟩ := (lossless.tiles.exact x).mp inside
  unfold Region.blocks at present
  rw [start,fin] at present
  exact uncovered b present here

end BuddyAllocator
