import Gameos.BuddySteps

-- What the work on the free lists leaves alone.
namespace BuddyAllocator
open MachineWords ByteMemory AllocatorTypes DyadicBlocks

-- The headers of the live allocations, and below the last page every byte behind the link
-- of its page.
structure Kept (before after : Memory) (allocations : List Live) : Prop where
  headers : ∀ a ∈ allocations, headerOf after a = headerOf before a
  bytes : ∀ x, 8 ≤ x % pageSize → x < 2^64 - pageSize → after x = before x

theorem Kept.refl (memory : Memory) (allocations : List Live) : Kept memory memory allocations :=
  ⟨fun _ _ => rfl,fun _ _ _ => rfl⟩

theorem Kept.trans (first : Kept before middle allocations) (second : Kept middle after allocations) :
    Kept before after allocations :=
  ⟨fun a present => (second.headers a present).trans (first.headers a present),
    fun x behind low => (second.bytes x behind low).trans (first.bytes x behind low)⟩

section Holding
variable {hand : List Block} {state : State} {allocations : List Live} {cells : Set Nat} {b : Block}

theorem Holding.page_base (holding : Holding hand state allocations cells)
    (present : b ∈ hand ++ allBlocks state allocations) : pageSize ∣ b.base :=
  Nat.dvd_trans (Nat.pow_dvd_pow 2 (holding.orders b present).1) (holding.tiling.aligned b present)

-- The link of a page is its first eight bytes.
theorem behind_link (page : pageSize ∣ base) (behind : 8 ≤ x % pageSize) : ¬ (base ≤ x ∧ x < base + 8) := by
  obtain ⟨q,rfl⟩ := page
  simp only [pageSize] at *
  omega

theorem Holding.push_kept (holding : Holding (b :: hand) state allocations cells) :
    Kept state.memory (pushFreeBlock state b.base b.order).memory allocations := by
  have here : b ∈ b :: hand ++ allBlocks state allocations := by simp
  have pages := holding.pages here
  have page := holding.page_base here
  refine ⟨fun a present => ?_,fun x behind _ => ?_⟩
  · apply holding.header_eq present
    intro x inside
    apply write_outside
    have away : ¬ b.Contains x := by
      intro mine
      have live : blockOf state.memory a ∈ hand ++ allBlocks state allocations := live_mem present
      exact (List.pairwise_cons.mp holding.tiling.apart).1 _ live x mine inside
    simp only [Block.Contains,pageSize] at away pages
    omega
  · have away := behind_link page behind
    exact write_outside (by omega)

theorem Holding.remove_kept (holding : Holding hand state allocations cells) (bound : order ≤ maxOrder)
    (got : removeFreeBlock state order base = some after) : Kept state.memory after.memory allocations := by
  unfold removeFreeBlock at got
  cases walked : unlink base none (state.freeLists order) state.memory with
  | none => simp [walked] at got
  | some result =>
    obtain ⟨list,memory⟩ := result
    simp only [walked] at got
    cases Option.some.inj got
    obtain ⟨perm,_,frame⟩ := holding.unlinked bound walked
    refine ⟨holding.unlinked_headers bound walked,fun x behind _ => ?_⟩
    apply frame
    intro n node
    have free : n ∈ state.freeLists order := perm.mem_iff.mpr (List.mem_cons_of_mem _ node)
    exact behind_link (holding.page_base (free_mem bound free)) behind

theorem Holding.splitDown_kept (holding : Holding (⟨base,order⟩ :: hand) state allocations cells)
    (small : minOrder ≤ target) (bound : target ≤ order) :
    Kept state.memory (BuddyAllocator.splitDown base target order state).2.memory allocations := by
  induction order, state using splitDown.induct base target with
  | case1 order state more ih =>
    rw [BuddyAllocator.splitDown,if_pos more]
    have range : pageSize ≤ base ∧ base + 2^order ≤ 2^64 - pageSize := holding.range (b:=⟨base,order⟩) (by simp)
    have swapped := (holding.split (by show minOrder < order; omega)).hand_perm (List.Perm.swap _ _ _)
    have double : 2^order = 2^(order-1) + 2^(order-1) := by
      rw [← Nat.two_mul,← Nat.pow_succ',Nat.succ_eq_add_one,Nat.sub_add_cancel (by omega)]
    have half : 0 < 2^(order-1) := Nat.two_pow_pos _
    have address : add64 base (blockSizeForOrder (order-1)) = base + 2^(order-1) := by
      apply add64_of_lt
      simp only [pageSize,blockSizeForOrder] at range ⊢
      omega
    rw [address] at ih ⊢
    exact swapped.push_kept.trans (ih swapped.push (by omega))
  | case2 order state stop =>
    rw [BuddyAllocator.splitDown,if_neg stop]
    exact .refl _ _

theorem Holding.takeBlock_kept (holding : Holding hand state allocations cells) (small : minOrder ≤ target)
    (taken : BuddyAllocator.takeBlock state target = some (block,after)) :
    Kept state.memory after.memory allocations := by
  obtain ⟨above,present,_⟩ := firstNonEmpty_spec state.freeLists target
  simp only [BuddyAllocator.takeBlock] at taken
  by_cases exhausted : maxOrder < firstNonEmpty state.freeLists target
  · simp [exhausted] at taken
  · rw [if_neg exhausted] at taken
    have bound : firstNonEmpty state.freeLists target ≤ maxOrder := by omega
    cases list : state.freeLists (firstNonEmpty state.freeLists target) with
    | nil => exact absurd list (present bound)
    | cons base next =>
      simp only [list,Option.some.injEq,Prod.mk.injEq] at taken
      obtain ⟨_,rfl⟩ := taken
      exact (holding.pop bound list).splitDown_kept small above

theorem Holding.mergeUp_kept (holding : Holding (b :: hand) state allocations cells) :
    Kept state.memory (BuddyAllocator.mergeUp b state).2.memory allocations := by
  induction b, state using mergeUp.induct with
  | case1 b state below absent =>
    rw [BuddyAllocator.mergeUp,if_pos below]
    simp only [absent]
    exact .refl _ _
  | case2 b state below after removed ih =>
    rw [BuddyAllocator.mergeUp,if_pos below]
    simp only [removed]
    have bound := (holding.orders b (by simp)).2
    refine (holding.remove_kept bound removed).trans (ih ?_)
    rw [mergedBlock_parent]
    exact (holding.remove bound removed).merge below
  | case3 b state top =>
    rw [BuddyAllocator.mergeUp,if_neg top]
    exact .refl _ _

end Holding

end BuddyAllocator
