import Gameos.BuddyFrames
import Gameos.BuddyRuns

-- The blocks in hand while the free lists are worked on: what is in them stays there.
namespace BuddyAllocator
open MachineWords ByteMemory AllocatorTypes DyadicBlocks

def Spared (before after : Memory) (blocks : List Block) : Prop :=
  ∀ b ∈ blocks, ∀ x, b.Contains x → after x = before x

theorem Spared.refl (memory : Memory) (blocks : List Block) : Spared memory memory blocks := fun _ _ _ _ => rfl

theorem Spared.trans (first : Spared before middle blocks) (second : Spared middle after blocks) : Spared before after blocks :=
  fun b present x inside => (second b present x inside).trans (first b present x inside)

theorem Spared.mono (spared : Spared before after blocks) (fewer : ∀ b ∈ blocks', b ∈ blocks) : Spared before after blocks' :=
  fun b present => spared b (fewer b present)

-- Bytes of no block stay as they are. A pointer that is rounded up past the end of the
-- address space has its header in the last bytes of it.
def Confined (cells : Set Nat) (before after : Memory) : Prop :=
  ∀ x, x ∉ cells → x < 2^64 - headerSize → after x = before x

theorem Confined.refl (cells : Set Nat) (memory : Memory) : Confined cells memory memory := fun _ _ _ => rfl

theorem Confined.trans (first : Confined cells before middle) (second : Confined cells middle after) : Confined cells before after :=
  fun x away low => (second x away low).trans (first x away low)

theorem unlink_erase (got : unlink base link list memory = some (list',memory')) : list' = list.erase base := by
  induction list generalizing link list' memory' with
  | nil => cases got
  | cons block rest ih =>
    rw [unlink.eq_def] at got
    simp only [] at got
    by_cases here : block = base
    · rw [if_pos here] at got
      rw [here,List.erase_cons_head]
      cases link <;> cases got <;> rfl
    · rw [if_neg here] at got
      cases tail : unlink base (some block) rest memory with
      | none => simp [tail] at got
      | some result =>
        obtain ⟨rest',after⟩ := result
        simp only [tail,Option.some.injEq,Prod.mk.injEq] at got
        rw [← got.1,ih tail,List.erase_cons_tail (by simpa using here)]

theorem removed_lists {state after : State} (got : removeFreeBlock state order base = some after) :
    after.freeLists = setList state.freeLists order ((state.freeLists order).erase base) := by
  unfold removeFreeBlock at got
  cases walked : unlink base none (state.freeLists order) state.memory with
  | none => simp [walked] at got
  | some result =>
    obtain ⟨list,memory⟩ := result
    simp only [walked,Option.some.injEq] at got
    rw [← got,← unlink_erase walked]

theorem removed_free {state after : State} (bound : order ≤ maxOrder) (got : removeFreeBlock state order base = some after) :
    (freeBlocks state.freeLists).Perm (⟨base,order⟩ :: freeBlocks after.freeLists) := by
  have present : base ∈ state.freeLists order := by
    by_contra absent
    rw [remove_absent.mpr absent] at got
    cases got
  have restored : setList after.freeLists order (state.freeLists order) = state.freeLists := by
    rw [removed_lists got]
    funext o
    by_cases same : o = order
    · rw [same,setList_same]
    · rw [setList_other same,setList_other same]
  have moved := freeBlocks_update after.freeLists (state.freeLists order) base bound (by
    rw [removed_lists got,setList_same]
    exact List.perm_cons_erase present)
  rw [restored] at moved
  exact moved

section Holding
variable {hand : List Block} {state after : State} {allocations : List Live} {cells : Set Nat} {b : Block}

-- Writes inside one block in hand spare the others.
theorem Holding.others_spared (holding : Holding (b :: hand) state allocations cells) {memory : Memory}
    (outside : ∀ x, ¬ b.Contains x → memory x = state.memory x) : Spared state.memory memory hand := by
  intro c present x inside
  apply outside
  intro mine
  have other : c ∈ hand ++ allBlocks state allocations := List.mem_append_left _ present
  exact (List.pairwise_cons.mp holding.tiling.apart).1 c other x mine inside

theorem Holding.push_spared (holding : Holding (b :: hand) state allocations cells) :
    Spared state.memory (pushFreeBlock state b.base b.order).memory hand := by
  have here : b ∈ b :: hand ++ allBlocks state allocations := by simp
  have pages := holding.pages here
  apply holding.others_spared
  intro x away
  apply write_outside
  simp only [Block.Contains,pageSize] at away pages
  omega

theorem Holding.remove_spared (holding : Holding hand state allocations cells) (bound : order ≤ maxOrder)
    (got : removeFreeBlock state order base = some after) : Spared state.memory after.memory hand := by
  unfold removeFreeBlock at got
  cases walked : unlink base none (state.freeLists order) state.memory with
  | none => simp [walked] at got
  | some result =>
    obtain ⟨list,memory⟩ := result
    simp only [walked] at got
    cases Option.some.inj got
    obtain ⟨perm,_,frame⟩ := holding.unlinked bound walked
    intro c present x inside
    apply frame
    intro n node word
    have free : n ∈ state.freeLists order := perm.mem_iff.mpr (List.mem_cons_of_mem _ node)
    have listed : (⟨n,order⟩ : Block) ∈ allBlocks state allocations :=
      List.mem_append_left _ (mem_freeBlocks.mpr ⟨bound,free⟩)
    exact (List.pairwise_append.mp holding.tiling.apart).2.2 c present _ listed x inside
      (holding.word_inside bound free word.1 word.2)

theorem Holding.splitDown_spared (holding : Holding (⟨base,order⟩ :: hand) state allocations cells)
    (small : minOrder ≤ target) (bound : target ≤ order) :
    Spared state.memory (BuddyAllocator.splitDown base target order state).2.memory hand := by
  induction order, state using splitDown.induct base target with
  | case1 order state more ih =>
    rw [BuddyAllocator.splitDown,if_pos more]
    have range : pageSize ≤ base ∧ base + 2^order ≤ 2^64 - pageSize := holding.range (b:=⟨base,order⟩) (by simp)
    have swapped := (holding.split (by show minOrder < order; omega)).hand_perm (List.Perm.swap _ _ _)
    have double : 2^order = 2^(order-1) + 2^(order-1) := by
      rw [← Nat.two_mul,← Nat.pow_succ',Nat.succ_eq_add_one,Nat.sub_add_cancel (by omega)]
    have half : 0 < 2^(order-1) := Nat.two_pow_pos _
    have address : add64 base (blockSizeForOrder (order-1)) = base + 2^(order-1) := by
      apply add64_of_lt
      simp only [pageSize,blockSizeForOrder] at range ⊢
      omega
    rw [address] at ih ⊢
    exact (swapped.push_spared.mono fun c => List.mem_cons_of_mem _).trans (ih swapped.push (by omega))
  | case2 order state stop =>
    rw [BuddyAllocator.splitDown,if_neg stop]
    exact .refl _ _

theorem Holding.takeBlock_spared (holding : Holding hand state allocations cells) (small : minOrder ≤ target)
    (taken : BuddyAllocator.takeBlock state target = some (b,after)) : Spared state.memory after.memory hand := by
  obtain ⟨above,present,_⟩ := firstNonEmpty_spec state.freeLists target
  simp only [BuddyAllocator.takeBlock] at taken
  by_cases exhausted : maxOrder < firstNonEmpty state.freeLists target
  · simp [exhausted] at taken
  · rw [if_neg exhausted] at taken
    have bound : firstNonEmpty state.freeLists target ≤ maxOrder := by omega
    cases list : state.freeLists (firstNonEmpty state.freeLists target) with
    | nil => exact absurd list (present bound)
    | cons base next =>
      simp only [list,Option.some.injEq,Prod.mk.injEq] at taken
      obtain ⟨_,rfl⟩ := taken
      exact (holding.pop bound list).splitDown_spared small above

theorem Holding.mergeUp_spared (holding : Holding (b :: hand) state allocations cells) :
    Spared state.memory (BuddyAllocator.mergeUp b state).2.memory hand := by
  induction b, state using mergeUp.induct with
  | case1 b state below absent =>
    rw [BuddyAllocator.mergeUp,if_pos below]
    simp only [absent]
    exact .refl _ _
  | case2 b state below after removed ih =>
    rw [BuddyAllocator.mergeUp,if_pos below]
    simp only [removed]
    have bound := (holding.orders b (by simp)).2
    refine ((holding.remove_spared bound removed).mono fun c => List.mem_cons_of_mem _).trans (ih ?_)
    rw [mergedBlock_parent]
    exact (holding.remove bound removed).merge below
  | case3 b state top =>
    rw [BuddyAllocator.mergeUp,if_neg top]
    exact .refl _ _

theorem Holding.cell (holding : Holding hand state allocations cells) (present : b ∈ hand ++ allBlocks state allocations)
    (inside : b.Contains x) : x ∈ cells :=
  (holding.tiling.exact x).mpr ⟨b,present,inside⟩

theorem Holding.own_confined (holding : Holding (b :: hand) state allocations cells) {memory : Memory}
    (outside : ∀ x, ¬ b.Contains x → memory x = state.memory x) : Confined cells state.memory memory :=
  fun x away _ => outside x fun inside => away (holding.cell List.mem_cons_self inside)

theorem Holding.push_confined (holding : Holding (b :: hand) state allocations cells) :
    Confined cells state.memory (pushFreeBlock state b.base b.order).memory := by
  have pages := holding.pages (b:=b) List.mem_cons_self
  refine holding.own_confined fun x away => write_outside ?_
  simp only [Block.Contains,pageSize] at away pages
  omega

theorem Holding.remove_confined (holding : Holding hand state allocations cells) (bound : order ≤ maxOrder)
    (got : removeFreeBlock state order base = some after) : Confined cells state.memory after.memory := by
  unfold removeFreeBlock at got
  cases walked : unlink base none (state.freeLists order) state.memory with
  | none => simp [walked] at got
  | some result =>
    obtain ⟨list,memory⟩ := result
    simp only [walked] at got
    cases Option.some.inj got
    obtain ⟨perm,_,frame⟩ := holding.unlinked bound walked
    intro x away _
    apply frame
    intro n node word
    have free : n ∈ state.freeLists order := perm.mem_iff.mpr (List.mem_cons_of_mem _ node)
    exact away (holding.cell (free_mem bound free) (holding.word_inside bound free word.1 word.2))

theorem Holding.splitDown_confined (holding : Holding (⟨base,order⟩ :: hand) state allocations cells)
    (small : minOrder ≤ target) (bound : target ≤ order) :
    Confined cells state.memory (BuddyAllocator.splitDown base target order state).2.memory := by
  induction order, state using splitDown.induct base target with
  | case1 order state more ih =>
    rw [BuddyAllocator.splitDown,if_pos more]
    have range : pageSize ≤ base ∧ base + 2^order ≤ 2^64 - pageSize := holding.range (b:=⟨base,order⟩) (by simp)
    have swapped := (holding.split (by show minOrder < order; omega)).hand_perm (List.Perm.swap _ _ _)
    have double : 2^order = 2^(order-1) + 2^(order-1) := by
      rw [← Nat.two_mul,← Nat.pow_succ',Nat.succ_eq_add_one,Nat.sub_add_cancel (by omega)]
    have half : 0 < 2^(order-1) := Nat.two_pow_pos _
    have address : add64 base (blockSizeForOrder (order-1)) = base + 2^(order-1) := by
      apply add64_of_lt
      simp only [pageSize,blockSizeForOrder] at range ⊢
      omega
    rw [address] at ih ⊢
    exact swapped.push_confined.trans (ih swapped.push (by omega))
  | case2 order state stop =>
    rw [BuddyAllocator.splitDown,if_neg stop]
    exact .refl _ _

theorem Holding.takeBlock_confined (holding : Holding hand state allocations cells) (small : minOrder ≤ target)
    (taken : BuddyAllocator.takeBlock state target = some (b,after)) : Confined cells state.memory after.memory := by
  obtain ⟨above,present,_⟩ := firstNonEmpty_spec state.freeLists target
  simp only [BuddyAllocator.takeBlock] at taken
  by_cases exhausted : maxOrder < firstNonEmpty state.freeLists target
  · simp [exhausted] at taken
  · rw [if_neg exhausted] at taken
    have bound : firstNonEmpty state.freeLists target ≤ maxOrder := by omega
    cases list : state.freeLists (firstNonEmpty state.freeLists target) with
    | nil => exact absurd list (present bound)
    | cons base next =>
      simp only [list,Option.some.injEq,Prod.mk.injEq] at taken
      obtain ⟨_,rfl⟩ := taken
      exact (holding.pop bound list).splitDown_confined small above

theorem Holding.mergeUp_confined (holding : Holding (b :: hand) state allocations cells) :
    Confined cells state.memory (BuddyAllocator.mergeUp b state).2.memory := by
  induction b, state using mergeUp.induct with
  | case1 b state below absent =>
    rw [BuddyAllocator.mergeUp,if_pos below]
    simp only [absent]
    exact .refl _ _
  | case2 b state below after removed ih =>
    rw [BuddyAllocator.mergeUp,if_pos below]
    simp only [removed]
    have bound := (holding.orders b (by simp)).2
    refine (holding.remove_confined bound removed).trans (ih ?_)
    rw [mergedBlock_parent]
    exact (holding.remove bound removed).merge below
  | case3 b state top =>
    rw [BuddyAllocator.mergeUp,if_neg top]
    exact .refl _ _

end Holding

-- What RESIZE makes of a block: it grows to its parent with each buddy it takes.
inductive Merges : Block → List Block → Block → Prop where
  | whole : Merges b [] b
  | joined {b c : Block} {rest : List Block} : Merges b.parent rest c → Merges b (b.buddy :: rest) c

theorem Merges.contains {x : Nat} (merges : Merges b buddies c) (aligned : b.Aligned) :
    c.Contains x ↔ b.Contains x ∨ ∃ d ∈ buddies, d.Contains x := by
  induction merges with
  | whole => simp
  | @joined b c rest _ ih =>
    rw [ih (parent_aligned aligned),parent_contains aligned,List.exists_mem_cons_iff,or_assoc]

theorem Merges.inside (merges : Merges b buddies c) (aligned : b.Aligned) : Block.Inside b c :=
  fun x here => (merges.contains aligned).mpr (.inl here)

-- The base stays, or goes down by at least the block's own size.
theorem Merges.base (merges : Merges b buddies c) (aligned : b.Aligned) : c.base = b.base ∨ c.base + 2^b.order ≤ b.base := by
  induction merges with
  | whole => exact .inl rfl
  | @joined b c rest _ ih =>
    have positive : 0 < 2^b.order := Nat.two_pow_pos _
    have double : 2^(b.order+1) = 2^b.order + 2^b.order := by rw [Nat.pow_succ]; omega
    have later := ih (parent_aligned aligned)
    rcases parent_cases aligned with ⟨_,parent,_⟩ | ⟨_,large,parent,_⟩
    · rw [parent] at later
      dsimp only at later
      omega
    · rw [parent] at later
      dsimp only at later
      omega

section Removing
variable {hand : List Block} {state original : State} {allocations : List Live} {cells : Set Nat} {b : Block}

-- The second loop takes what the first one has seen: it starts from the state the first
-- one looked at, and never comes back to an order.
theorem Holding.removeBuddies (holding : Holding (b :: hand) state allocations cells) (limit : target ≤ maxOrder)
    (below : b.order ≤ target) (same : ∀ o, b.order ≤ o → state.freeLists o = original.freeLists o)
    (checked : checkBuddies original target b = some base) :
    ∃ after buddies, removeBuddies target b state = (base,after) ∧ Holding (⟨base,target⟩ :: hand) after allocations cells ∧
      (Spared state.memory after.memory (b :: hand) ∧ Confined cells state.memory after.memory) ∧
      (freeBlocks state.freeLists).Perm (buddies ++ freeBlocks after.freeLists) ∧ Merges b buddies ⟨base,target⟩ ∧ ∀ o, o < b.order → after.freeLists o = state.freeLists o := by
  induction b, state using removeBuddies.induct target with
  | case1 b state more ih =>
    rw [checkBuddies,if_pos more] at checked
    rw [BuddyAllocator.removeBuddies,if_pos more]
    by_cases free : isFreeBlock original b.order (buddyBaseOf b) = true
    · rw [if_pos free] at checked
      have present : buddyBaseOf b ∈ state.freeLists b.order := by
        rw [same b.order (Nat.le_refl _)]
        exact List.contains_iff_mem.mp free
      cases removed : removeFreeBlock state b.order (buddyBaseOf b) with
      | none => exact absurd present (remove_absent.mp removed)
      | some mid =>
        rw [removed,Option.getD_some] at ih
        rw [Option.getD_some]
        have bound := (holding.orders b (by simp)).2
        have parent := mergedBlock_parent b
        have merged := (holding.remove bound removed).merge (by omega)
        have others : ∀ o, o ≠ b.order → mid.freeLists o = state.freeLists o := fun o other => by
          rw [removed_lists removed,setList_other other]
        rw [parent] at ih checked ⊢
        obtain ⟨after,buddies,done,held,⟨spared,confined⟩,perm,merges,lower⟩ := ih merged (by simp only [Block.parent]; omega)
          (fun o above => (others o (by simp only [Block.parent] at above; omega)).trans
            (same o (by simp only [Block.parent] at above; omega))) checked
        have aligned := holding.tiling.aligned b (by simp)
        have inside : Block.Inside b b.parent := fun x here => (parent_contains aligned).mpr (.inl here)
        refine ⟨after,b.buddy :: buddies,done,held,⟨?_,(holding.remove_confined bound removed).trans confined⟩,?_,.joined merges,
          fun o less => ?_⟩
        · refine (holding.remove_spared bound removed).trans fun c present x here => ?_
          rcases List.mem_cons.mp present with rfl | other
          · exact spared _ List.mem_cons_self x (inside x here)
          · exact spared c (List.mem_cons_of_mem _ other) x here
        · exact (removed_free bound removed).trans (perm.cons _)
        · rw [lower o (by simp only [Block.parent]; omega),others o (Nat.ne_of_lt less)]
    · rw [if_neg free] at checked
      cases checked
  | case2 b state stop =>
    rw [checkBuddies,if_neg stop] at checked
    rw [BuddyAllocator.removeBuddies,if_neg stop]
    cases checked
    have order : b.order = target := by omega
    have block : (⟨b.base,target⟩ : Block) = b := by rw [← order]
    rw [block]
    exact ⟨state,[],rfl,holding,⟨.refl _ _,.refl _ _⟩,.refl _,.whole,fun _ _ => rfl⟩

theorem checkBuddies_free (aligned : b.Aligned) : checkBuddies state target b ≠ none ↔
    ∀ order, b.order ≤ order → order < target → (b.around order).buddy.base ∈ state.freeLists order := by
  induction b using checkBuddies.induct state target with
  | case1 b more free ih =>
    have present : b.buddy.base ∈ state.freeLists b.order := List.contains_iff_mem.mp free
    rw [mergedBlock_parent] at ih
    rw [checkBuddies,if_pos more,if_pos free,mergedBlock_parent,ih (parent_aligned aligned)]
    constructor
    · intro later order above below
      by_cases here : order = b.order
      · rw [here,around_order aligned]
        exact present
      · rw [← around_parent aligned (by omega)]
        exact later order (by simp only [Block.parent]; omega) below
    · intro all order above below
      simp only [Block.parent] at above
      rw [around_parent aligned above]
      exact all order (by omega) below
  | case2 b more taken =>
    rw [checkBuddies,if_pos more,if_neg taken]
    refine iff_of_false (fun some => some rfl) fun all => taken ?_
    have present := all b.order (Nat.le_refl _) more
    rw [around_order aligned] at present
    exact List.contains_iff_mem.mpr present
  | case3 b stop =>
    rw [checkBuddies,if_neg stop]
    exact iff_of_true (Option.some_ne_none _) fun order above below => absurd below (by omega)

-- The block and its buddies, where they stay apart after all.
theorem Holding.unmerge {c : Block} (merges : Merges b buddies c) (holding : Holding (c :: hand) state allocations cells)
    (aligned : b.Aligned) (page : minOrder ≤ b.order) : Holding (b :: (buddies ++ hand)) state allocations cells := by
  induction merges with
  | whole => exact holding
  | @joined b c rest _ ih =>
    have parent := ih holding (parent_aligned aligned) (by simp only [Block.parent]; omega)
    have halves := parent.split (by simp only [Block.parent]; omega)
    rcases parent_cases aligned with ⟨_,parent,buddy⟩ | ⟨_,large,parent,buddy⟩
    · have lower : b.parent.lower = b := by rw [parent]; rfl
      have upper : b.parent.upper = b.buddy := by rw [parent,buddy]; rfl
      rw [lower,upper] at halves
      exact halves
    · have lower : b.parent.lower = b.buddy := by rw [parent,buddy]; rfl
      have upper : b.parent.upper = b := by
        rw [parent]
        simp only [Block.upper,Nat.add_sub_cancel,Nat.sub_add_cancel large]
      rw [lower,upper] at halves
      exact halves.hand_perm (List.Perm.swap _ _ _)

end Removing

end BuddyAllocator
