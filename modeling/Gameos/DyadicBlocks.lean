import Mathlib.Data.Set.Basic
import Mathlib.Data.List.Pairwise
import Mathlib.Data.List.Perm.Basic
import Gameos.MachineWords

namespace DyadicBlocks

-- A block of 2^order consecutive cells. The structure does not demand
-- alignment: an allocator hands blocks around before that is established.
structure Block where
  base : Nat
  order : Nat
deriving DecidableEq, Repr

namespace Block

def Contains (b : Block) (x : Nat) : Prop := b.base ≤ x ∧ x < b.base + 2^b.order
def Aligned (b : Block) : Prop := 2^b.order ∣ b.base
def Apart (a b : Block) : Prop := ∀ x, a.Contains x → ¬ b.Contains x
def Inside (a b : Block) : Prop := ∀ x, a.Contains x → b.Contains x

def buddy (b : Block) : Block := ⟨b.base ^^^ 2^b.order,b.order⟩
def parent (b : Block) : Block := ⟨min b.base b.buddy.base,b.order+1⟩
def lower (b : Block) : Block := ⟨b.base,b.order-1⟩
def upper (b : Block) : Block := ⟨b.base + 2^(b.order-1),b.order-1⟩
def around (b : Block) (order : Nat) : Block := ⟨b.base / 2^order * 2^order,order⟩

instance (b : Block) (x : Nat) : Decidable (b.Contains x) := by unfold Contains; infer_instance
instance (b : Block) : Decidable b.Aligned := by unfold Aligned; infer_instance

end Block
open Block

theorem apart_symm (apart : Apart a b) : Apart b a := fun x right left => apart x left right

instance : Std.Symm Apart := ⟨fun _ _ => apart_symm⟩

theorem contains_base (b : Block) : b.Contains b.base :=
  ⟨Nat.le_refl _,Nat.lt_add_of_pos_right (Nat.two_pow_pos _)⟩

theorem apart_ne (apart : Apart a b) : a ≠ b := by
  rintro rfl
  exact apart a.base (contains_base a) (contains_base a)

-- An aligned block is one fibre of division by its size.
theorem contains_quotient (aligned : Aligned b) :
    b.Contains x ↔ x / 2^b.order = b.base / 2^b.order := by
  obtain ⟨q,exact⟩ := aligned
  have positive : 0 < 2^b.order := Nat.two_pow_pos _
  rw [Contains,exact,Nat.mul_div_cancel_left _ positive,Nat.div_eq_iff positive]
  rw [Nat.mul_comm q,show (2^b.order*q ≤ x ∧ x < 2^b.order*q+2^b.order) ↔
    (2^b.order*q ≤ x ∧ x ≤ 2^b.order*q+2^b.order-1) by omega]

theorem inside_of_meet (alignedA : Aligned a) (alignedB : Aligned b) (order : a.order ≤ b.order)
    (inA : a.Contains x) (inB : b.Contains x) : Inside a b := by
  intro y here
  rw [contains_quotient alignedA] at inA here
  rw [contains_quotient alignedB] at inB ⊢
  have coarser : ∀ z, z / 2^b.order = z / 2^a.order / 2^(b.order-a.order) := by
    intro z
    rw [Nat.div_div_eq_div_mul,← Nat.pow_add,Nat.add_sub_cancel' order]
  rw [← inB,coarser,coarser x,here,inA]

theorem order_of_inside (inside : Inside a b) : a.order ≤ b.order := by
  have first := inside a.base (contains_base a)
  have last := inside (a.base + 2^a.order - 1) ⟨by have := Nat.two_pow_pos a.order; omega,
    by have := Nat.two_pow_pos a.order; omega⟩
  have size : 2^a.order ≤ 2^b.order := by
    have := Nat.two_pow_pos a.order
    obtain ⟨low,_⟩ := first
    obtain ⟨_,high⟩ := last
    omega
  exact (Nat.pow_le_pow_iff_right (by decide)).mp size

theorem quotient_buddy (aligned : Aligned b) :
    b.buddy.base / 2^b.order = if b.base / 2^b.order % 2 = 0
      then b.base / 2^b.order + 1 else b.base / 2^b.order - 1 := by
  have positive : 0 < 2^b.order := Nat.two_pow_pos _
  rw [buddy,MachineWords.xor_pow _ _ aligned]
  split
  · exact Nat.add_div_right _ positive
  · have step : b.base = b.base - 2^b.order + 2^b.order := by
      have nonzero : b.base / 2^b.order ≠ 0 := by omega
      have large : ¬ b.base < 2^b.order := fun small => nonzero (Nat.div_eq_of_lt small)
      omega
    have shifted := Nat.add_div_right (b.base - 2^b.order) positive
    rw [← step] at shifted
    exact Nat.eq_sub_of_add_eq shifted.symm

theorem buddy_aligned (aligned : Aligned b) : Aligned b.buddy := by
  change 2^b.order ∣ b.base ^^^ 2^b.order
  rw [MachineWords.xor_pow _ _ aligned]
  split
  · exact Nat.dvd_add aligned (Nat.dvd_refl _)
  · exact Nat.dvd_sub aligned (Nat.dvd_refl _)

theorem buddy_buddy (b : Block) : b.buddy.buddy = b := by
  cases b
  simp [buddy]

theorem buddy_apart (aligned : Aligned b) : Apart b b.buddy := by
  intro x here there
  rw [contains_quotient aligned] at here
  rw [contains_quotient (buddy_aligned aligned)] at there
  have quotient := quotient_buddy aligned
  change x / 2^b.order = b.buddy.base / 2^b.order at there
  rw [← there,here] at quotient
  split at quotient <;> omega

theorem parent_cases (aligned : Aligned b) :
    (b.base / 2^b.order % 2 = 0 ∧ b.parent = ⟨b.base,b.order+1⟩ ∧ b.buddy = ⟨b.base+2^b.order,b.order⟩) ∨
    (b.base / 2^b.order % 2 = 1 ∧ 2^b.order ≤ b.base ∧ b.parent = ⟨b.base-2^b.order,b.order+1⟩ ∧
      b.buddy = ⟨b.base-2^b.order,b.order⟩) := by
  have positive : 0 < 2^b.order := Nat.two_pow_pos _
  have flipped := MachineWords.xor_pow b.order b.base aligned
  by_cases even : b.base / 2^b.order % 2 = 0
  · rw [if_pos even] at flipped
    refine .inl ⟨even,?_,?_⟩ <;> simp [parent,buddy,flipped]
  · rw [if_neg even] at flipped
    have nonzero : b.base / 2^b.order ≠ 0 := by omega
    have large : 2^b.order ≤ b.base := by
      by_contra small
      exact nonzero (Nat.div_eq_of_lt (by omega))
    refine .inr ⟨by omega,large,?_,?_⟩ <;> simp [parent,buddy,flipped]

theorem parent_aligned (aligned : Aligned b) : Aligned b.parent := by
  have positive : 0 < 2^b.order := Nat.two_pow_pos _
  have exact := Nat.div_mul_cancel aligned
  rcases parent_cases aligned with ⟨even,parent,_⟩ | ⟨odd,large,parent,_⟩
  · rw [parent,Aligned]
    refine ⟨b.base / 2^b.order / 2,?_⟩
    rw [Nat.pow_succ,Nat.mul_assoc,Nat.mul_comm 2,Nat.div_mul_cancel (Nat.dvd_of_mod_eq_zero even),
      Nat.mul_comm,exact]
  · rw [parent,Aligned]
    refine ⟨(b.base / 2^b.order - 1) / 2,?_⟩
    have half : (b.base / 2^b.order - 1) / 2 * 2 = b.base / 2^b.order - 1 :=
      Nat.div_mul_cancel (Nat.dvd_of_mod_eq_zero (by omega))
    rw [Nat.pow_succ,Nat.mul_assoc,Nat.mul_comm 2,half,Nat.mul_comm,Nat.sub_mul,exact,Nat.one_mul]

theorem parent_contains (aligned : Aligned b) :
    b.parent.Contains x ↔ b.Contains x ∨ b.buddy.Contains x := by
  have double : 2^(b.order+1) = 2^b.order + 2^b.order := by rw [Nat.pow_succ]; omega
  rcases parent_cases aligned with ⟨_,parent,buddy⟩ | ⟨_,large,parent,buddy⟩
  · rw [parent,buddy]; simp only [Contains,double]; omega
  · rw [parent,buddy]; simp only [Contains,double]; omega

theorem around_aligned (b : Block) (o : Nat) : Aligned (b.around o) := Nat.dvd_mul_left _ _

theorem around_contains (b : Block) (o : Nat) : (b.around o).Contains b.base :=
  ⟨Nat.div_mul_le_self _ _,Nat.lt_div_mul_add (Nat.two_pow_pos o)⟩

theorem inside_around (aligned : Aligned b) (above : b.order ≤ o) : Inside b (b.around o) :=
  inside_of_meet aligned (around_aligned b o) above (contains_base b) (around_contains b o)

theorem around_of_inside (aligned : Aligned c) (inside : Inside b c) : b.around c.order = c := by
  have same := (contains_quotient aligned).mp (inside b.base (contains_base b))
  rw [around,same,Nat.div_mul_cancel aligned]

theorem around_parent (aligned : Aligned b) (above : b.order < o) : b.parent.around o = b.around o := by
  have inside : Inside b (b.parent.around o) := fun x here =>
    inside_around (parent_aligned aligned) above x ((parent_contains aligned).mpr (.inl here))
  exact (around_of_inside (around_aligned b.parent o) inside).symm

theorem around_order (aligned : Aligned b) : b.around b.order = b := around_of_inside aligned fun _ here => here

theorem halves_contain {b : Block} (split : b.order ≠ 0) :
    b.Contains x ↔ b.lower.Contains x ∨ b.upper.Contains x := by
  have double : 2^b.order = 2^(b.order-1) + 2^(b.order-1) := by
    rw [← Nat.two_mul,← Nat.pow_succ',Nat.succ_eq_add_one,Nat.sub_add_cancel (by omega)]
  simp only [Contains,lower,upper,double]
  omega

theorem halves_aligned (aligned : Aligned b) : Aligned b.lower ∧ Aligned b.upper := by
  have divides : 2^(b.order-1) ∣ b.base :=
    Nat.dvd_trans (Nat.pow_dvd_pow 2 (Nat.sub_le _ _)) aligned
  exact ⟨divides,Nat.dvd_add divides (Nat.dvd_refl _)⟩

theorem upper_buddy (aligned : Aligned b) (split : b.order ≠ 0) : b.lower.buddy = b.upper := by
  obtain ⟨low,_⟩ := halves_aligned aligned
  have even : b.base / 2^(b.order-1) % 2 = 0 := by
    obtain ⟨q,exact⟩ := aligned
    have double : 2^b.order = 2^(b.order-1) * 2 := by
      rw [← Nat.pow_succ,Nat.succ_eq_add_one,Nat.sub_add_cancel (by omega)]
    rw [exact,double,Nat.mul_assoc,Nat.mul_div_cancel_left _ (Nat.two_pow_pos _)]
    omega
  have flipped := MachineWords.xor_pow (b.order-1) b.base low
  rw [if_pos even] at flipped
  simp [lower,upper,buddy,flipped]

-- A list of aligned blocks that cuts a set of cells exactly, counting each
-- occurrence: a block listed twice is not apart from itself.
structure Tiling (blocks : List Block) (cells : Set Nat) : Prop where
  aligned : ∀ b ∈ blocks, Aligned b
  apart : blocks.Pairwise Apart
  exact : ∀ x, x ∈ cells ↔ ∃ b ∈ blocks, b.Contains x

theorem Tiling.perm (tiling : Tiling before cells) (same : before.Perm after) : Tiling after cells where
  aligned b present := tiling.aligned b (same.mem_iff.mpr present)
  apart := (same.pairwise_iff apart_symm).mp tiling.apart
  exact x := by
    rw [tiling.exact x]
    constructor <;> rintro ⟨b,present,here⟩
    · exact ⟨b,same.mem_iff.mp present,here⟩
    · exact ⟨b,same.mem_iff.mpr present,here⟩

theorem Tiling.unique (tiling : Tiling blocks cells) (left : a ∈ blocks) (right : b ∈ blocks)
    (inA : a.Contains x) (inB : b.Contains x) : a = b := by
  by_contra different
  exact tiling.apart.forall left right different x inA inB

theorem Tiling.split (tiling : Tiling (b :: rest) cells) (large : b.order ≠ 0) :
    Tiling (b.lower :: b.upper :: rest) cells := by
  obtain ⟨here,others⟩ := List.pairwise_cons.mp tiling.apart
  have aligned := tiling.aligned b (by simp)
  obtain ⟨low,high⟩ := halves_aligned aligned
  have siblings : Apart b.lower b.upper := by
    rw [← upper_buddy aligned large]; exact buddy_apart low
  refine ⟨?_,?_,?_⟩
  · intro c present
    simp only [List.mem_cons] at present
    rcases present with rfl | rfl | present
    · exact low
    · exact high
    · exact tiling.aligned c (by simp [present])
  · refine List.pairwise_cons.mpr ⟨?_,List.pairwise_cons.mpr ⟨?_,others⟩⟩
    · intro c present x inside
      rcases List.mem_cons.mp present with rfl | present
      · exact siblings x inside
      · exact here c present x ((halves_contain large).mpr (.inl inside))
    · intro c present x inside
      exact here c present x ((halves_contain large).mpr (.inr inside))
  · intro x
    rw [tiling.exact x]
    simp only [List.exists_mem_cons_iff]
    rw [halves_contain large,or_assoc]

theorem Tiling.merge (tiling : Tiling (b :: b.buddy :: rest) cells) :
    Tiling (b.parent :: rest) cells := by
  have aligned := tiling.aligned b (by simp)
  obtain ⟨here,tail⟩ := List.pairwise_cons.mp tiling.apart
  obtain ⟨there,others⟩ := List.pairwise_cons.mp tail
  refine ⟨?_,?_,?_⟩
  · intro c present
    rcases List.mem_cons.mp present with rfl | present
    · exact parent_aligned aligned
    · exact tiling.aligned c (by simp [present])
  · refine List.pairwise_cons.mpr ⟨?_,others⟩
    intro c present x inside
    rcases (parent_contains aligned).mp inside with low | high
    · exact here c (by simp [present]) x low
    · exact there c present x high
  · intro x
    rw [tiling.exact x]
    simp only [List.exists_mem_cons_iff]
    rw [parent_contains aligned,or_assoc]

-- No block stands beside its own buddy.
def Coalesced (blocks : List Block) : Prop := ∀ b ∈ blocks, b.buddy ∉ blocks

-- Induction is on the order of the covered block: its two halves lie in one
-- block each, and two half-sized owners would be buddies of each other.
theorem Tiling.covered (tiling : Tiling blocks cells) (coalesced : Coalesced blocks)
    (order : Nat) (a : Block) (size : a.order = order) (aligned : Aligned a)
    (covered : ∀ x, a.Contains x → x ∈ cells) : ∃ b ∈ blocks, Inside a b := by
  induction order generalizing a with
  | zero =>
    obtain ⟨b,present,here⟩ := (tiling.exact a.base).mp (covered _ (contains_base a))
    refine ⟨b,present,inside_of_meet aligned (tiling.aligned b present) (by omega)
      (contains_base a) here⟩
  | succ order ih =>
    have large : a.order ≠ 0 := by omega
    obtain ⟨low,high⟩ := halves_aligned aligned
    obtain ⟨l,inL,insideL⟩ := ih a.lower (by simp [lower,size]) low
      (fun x here => covered x ((halves_contain large).mpr (.inl here)))
    obtain ⟨r,inR,insideR⟩ := ih a.upper (by simp [upper,size]) high
      (fun x here => covered x ((halves_contain large).mpr (.inr here)))
    by_cases wideL : a.order ≤ l.order
    · exact ⟨l,inL,inside_of_meet aligned (tiling.aligned l inL) wideL (contains_base a)
        (insideL _ (contains_base a.lower))⟩
    by_cases wideR : a.order ≤ r.order
    · exact ⟨r,inR,inside_of_meet aligned (tiling.aligned r inR) wideR
        ((halves_contain large).mpr (.inr (contains_base a.upper))) (insideR _ (contains_base a.upper))⟩
    have exactly : ∀ {h o : Block}, h.order = a.order-1 → Aligned h → o ∈ blocks → Inside h o →
        ¬ a.order ≤ o.order → o = h := by
      intro h o half aligned present inside narrow
      have order : o.order = h.order := by have := order_of_inside inside; omega
      have base := (contains_quotient (tiling.aligned o present)).mp (inside _ (contains_base h))
      rw [order] at base
      have equal : o.base = h.base := by
        have left := Nat.div_mul_cancel (tiling.aligned o present)
        have right := Nat.div_mul_cancel aligned
        rw [order] at left
        rw [← left,← base,right]
      cases o; cases h; simp_all
    have left : l = a.lower := exactly (by simp [lower]) low inL insideL wideL
    have right : r = a.upper := exactly (by simp [upper]) high inR insideR wideR
    subst left right
    exact absurd (by rwa [upper_buddy aligned large]) (coalesced a.lower inL)

-- Two coalesced tilings of the same cells list the same blocks.
theorem coalesced_unique (left : Tiling first cells) (right : Tiling second cells)
    (coalescedL : Coalesced first) (coalescedR : Coalesced second) (b : Block) :
    b ∈ first ↔ b ∈ second := by
  have oneSided : ∀ {one two : List Block}, Tiling one cells → Tiling two cells → Coalesced one →
      Coalesced two → b ∈ one → b ∈ two := by
    intro one two tilingOne tilingTwo coalescedOne coalescedTwo present
    obtain ⟨g,inTwo,outward⟩ := tilingTwo.covered coalescedTwo _ b rfl (tilingOne.aligned b present)
      (fun x here => (tilingOne.exact x).mpr ⟨b,present,here⟩)
    obtain ⟨c,inOne,further⟩ := tilingOne.covered coalescedOne _ g rfl (tilingTwo.aligned g inTwo)
      (fun x here => (tilingTwo.exact x).mpr ⟨g,inTwo,here⟩)
    have same : b = c := tilingOne.unique present inOne (contains_base b)
      (further _ (outward _ (contains_base b)))
    subst c
    have order : b.order = g.order := Nat.le_antisymm (order_of_inside outward) (order_of_inside further)
    have quotient := (contains_quotient (tilingTwo.aligned g inTwo)).mp (outward _ (contains_base b))
    have base : b.base = g.base := by
      have l := Nat.div_mul_cancel (tilingOne.aligned b present)
      have r := Nat.div_mul_cancel (tilingTwo.aligned g inTwo)
      rw [← l,order,quotient,r]
    have equal : b = g := by cases b; cases g; simp_all
    rwa [equal]
  exact ⟨oneSided left right coalescedL coalescedR,oneSided right left coalescedR coalescedL⟩

end DyadicBlocks
