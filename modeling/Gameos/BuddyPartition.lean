import Gameos.BuddyInvariant

namespace BuddyAllocator
open MachineWords ByteMemory AllocatorTypes DyadicBlocks TransitionRuns

def WordApart (a b : Nat) : Prop := a+8 ≤ b ∨ b+8 ≤ a

theorem unlink_absent : unlink base link list memory = none ↔ base ∉ list := by
  induction list generalizing link with
  | nil => simp [unlink]
  | cons block rest ih =>
    rw [unlink.eq_def,List.mem_cons,not_or]
    simp only []
    by_cases here : block = base
    · subst here
      cases link <;> simp
    · rw [if_neg here]
      cases tail : unlink base (some block) rest memory with
      | none => simpa [Ne.symm here] using ih.mp tail
      | some result =>
        have present : base ∈ rest := by
          by_contra absent
          rw [ih.mpr absent] at tail
          cases tail
        simp [present]

-- Induction follows the walk. A step hands the visited block over as the owner
-- of the next link, so its word is restored together with the shorter list.
theorem unlink_spec (got : unlink base link list memory = some (list',memory'))
    (apart : (link.toList ++ list).Pairwise WordApart) (small : ∀ b ∈ list, b < 2^64)
    (owned : ∀ owner, link = some owner → read memory owner 8 = headAddress list)
    (linked : Linked memory list) :
    list.Perm (base :: list') ∧ Linked memory' list' ∧
      (∀ owner, link = some owner → read memory' owner 8 = headAddress list') ∧
      (∀ x, (∀ n ∈ link.toList ++ list', ¬ (n ≤ x ∧ x < n+8)) → memory' x = memory x) := by
  induction list generalizing link list' memory' with
  | nil => simp [unlink] at got
  | cons block rest ih =>
    have fits : headAddress rest < 256^8 := by
      cases rest with
      | nil => simp [headAddress]
      | cons next _ => exact small next (by simp)
    rw [unlink.eq_def] at got
    simp only [] at got
    by_cases here : block = base
    · rw [if_pos here] at got
      subst here
      cases link with
      | none =>
        obtain ⟨rfl,rfl⟩ := by simpa using got
        exact ⟨.refl _,linked.2,by simp,fun _ _ => rfl⟩
      | some owner =>
        obtain ⟨rfl,rfl⟩ := by simpa using got
        have separate : ∀ b ∈ rest, WordApart owner b := by
          intro b present
          exact (List.pairwise_cons.mp apart).1 b (by simp [present])
        refine ⟨.refl _,?_,?_,?_⟩
        · apply linked_congr linked.2
          intro b present
          exact read_write_outside (separate b present).symm
        · intro o same
          cases same
          exact read_write fits
        · intro x outside
          have away := outside owner (by simp)
          exact write_outside (by omega)
    · rw [if_neg here] at got
      cases tail : unlink base (some block) rest memory with
      | none => simp [tail] at got
      | some result =>
        obtain ⟨rest',after⟩ := result
        obtain ⟨rfl,rfl⟩ := by simpa [tail] using got
        have restApart : (block :: rest).Pairwise WordApart := by
          cases link with
          | none => exact apart
          | some owner => exact (List.pairwise_cons.mp apart).2
        obtain ⟨perm,relinked,own,frame⟩ := ih tail restApart (fun b p => small b (by simp [p]))
          (by intro o same; cases same; exact linked.1) linked.2
        refine ⟨(perm.cons block).trans (List.Perm.swap base block rest'),⟨own block rfl,relinked⟩,?_,?_⟩
        · intro owner same
          subst same
          have separate := (List.pairwise_cons.mp apart).1
          have kept : ∀ x, owner ≤ x → x < owner+8 → after x = memory x := by
            intro x low high
            apply frame
            intro n present
            have member : n ∈ block :: rest := by
              rcases List.mem_cons.mp present with rfl | later
              · simp
              · exact List.mem_cons.mpr (.inr (perm.mem_iff.mpr (List.mem_cons.mpr (.inr later))))
            have away := separate n member
            unfold WordApart at away
            omega
          rw [read_congr kept,owned owner rfl]
          rfl
        · intro x outside
          exact frame x (fun n present => outside n (by simp only [Option.toList_some,
            List.singleton_append,List.mem_cons,List.mem_append] at present ⊢; exact .inr present))

section Holding
variable {hand : List Block} {state : State} {allocations : List Live} {cells : Set Nat} {b : Block}

theorem Holding.hand_perm (holding : Holding hand state allocations cells) (same : hand.Perm hand') :
    Holding hand' state allocations cells :=
  holding.reorder (same.append_right _) holding.placed holding.linked

theorem words_apart (apart : Block.Apart a b) (sizeA : pageSize ≤ 2^a.order) (sizeB : pageSize ≤ 2^b.order) :
    WordApart a.base b.base := by
  simp only [pageSize] at sizeA sizeB
  have left := apart b.base
  have right := apart a.base
  simp only [Block.Contains] at left right
  unfold WordApart
  omega

theorem Holding.list_apart (holding : Holding hand state allocations cells) (bound : order ≤ maxOrder) :
    (state.freeLists order).Pairwise WordApart := by
  have blocks : (freeBlocks state.freeLists).Pairwise Block.Apart :=
    (List.pairwise_append.mp (List.pairwise_append.mp holding.tiling.apart).2.1).1
  rw [freeBlocks,List.pairwise_flatMap] at blocks
  have mapped := blocks.1 order (List.mem_range.mpr (Nat.lt_succ_iff.mpr bound))
  rw [List.pairwise_map] at mapped
  refine mapped.imp_of_mem ?_
  intro a b inA inB apart
  exact words_apart apart (holding.pages (free_mem bound inA)) (holding.pages (free_mem bound inB))

theorem Holding.free_apart_live (holding : Holding hand state allocations cells) (bound : order ≤ maxOrder)
    (isFree : base ∈ state.freeLists order) (present : a ∈ allocations) :
    Block.Apart ⟨base,order⟩ (blockOf state.memory a) :=
  (List.pairwise_append.mp (List.pairwise_append.mp holding.tiling.apart).2.1).2.2 _
    (mem_freeBlocks.mpr ⟨bound,isFree⟩) _ (List.mem_map.mpr ⟨a,present,rfl⟩)

theorem Holding.word_inside (holding : Holding hand state allocations cells) (bound : order ≤ maxOrder)
    (isFree : base ∈ state.freeLists order) (low : base ≤ x) (high : x < base+8) :
    (⟨base,order⟩ : Block).Contains x := by
  have pages := holding.pages (free_mem bound isFree)
  simp only [pageSize] at pages
  exact ⟨low,by show x < base + 2^order; omega⟩

theorem Holding.lists_apart (holding : Holding hand state allocations cells) (bound : order ≤ maxOrder)
    (other : order' ≤ maxOrder) (different : order ≠ order') (left : base ∈ state.freeLists order)
    (right : base' ∈ state.freeLists order') : WordApart base base' := by
  have one : (⟨base,order⟩ : Block) ∈ hand ++ allBlocks state allocations := free_mem bound left
  have two : (⟨base',order'⟩ : Block) ∈ hand ++ allBlocks state allocations := free_mem other right
  have distinct : (⟨base,order⟩ : Block) ≠ ⟨base',order'⟩ := by intro same; cases same; exact different rfl
  exact words_apart (holding.tiling.apart.forall one two distinct) (holding.pages one) (holding.pages two)

-- A walk over a list writes no other word than those of the blocks it leaves there.
theorem Holding.unlinked (holding : Holding hand state allocations cells) (bound : order ≤ maxOrder)
    (walked : unlink base none (state.freeLists order) state.memory = some (list,memory)) :
    (state.freeLists order).Perm (base :: list) ∧ Linked memory list ∧
      ∀ x, (∀ n ∈ list, ¬ (n ≤ x ∧ x < n+8)) → memory x = state.memory x := by
  have small : ∀ b ∈ state.freeLists order, b < 2^64 := by
    intro b present
    have range := holding.range (free_mem bound present)
    have positive : 0 < 2^order := Nat.two_pow_pos _
    simp only [pageSize] at range
    omega
  obtain ⟨perm,linked,_,frame⟩ := unlink_spec walked (holding.list_apart bound) small (by simp)
    (holding.linked order bound)
  exact ⟨perm,linked,frame⟩

theorem Holding.unlinked_headers (holding : Holding hand state allocations cells) (bound : order ≤ maxOrder)
    (walked : unlink base none (state.freeLists order) state.memory = some (list,memory)) :
    ∀ a ∈ allocations, headerOf memory a = headerOf state.memory a := by
  obtain ⟨perm,_,frame⟩ := holding.unlinked bound walked
  intro a present
  apply holding.header_eq present
  intro x inside
  apply frame
  intro n node word
  have free : n ∈ state.freeLists order := perm.mem_iff.mpr (List.mem_cons_of_mem _ node)
  exact holding.free_apart_live bound free present x (holding.word_inside bound free word.1 word.2) inside

theorem Holding.remove (holding : Holding hand state allocations cells) (bound : order ≤ maxOrder)
    (got : removeFreeBlock state order base = some after) :
    Holding (⟨base,order⟩ :: hand) after allocations cells := by
  unfold removeFreeBlock at got
  cases walked : unlink base none (state.freeLists order) state.memory with
  | none => simp [walked] at got
  | some result =>
    obtain ⟨list,memory⟩ := result
    simp only [walked] at got
    cases Option.some.inj got
    obtain ⟨perm,linked,frame⟩ := holding.unlinked bound walked
    have headers := holding.unlinked_headers bound walked
    have inList : ∀ n ∈ list, n ∈ state.freeLists order := fun n present =>
      perm.mem_iff.mpr (List.mem_cons.mpr (.inr present))
    refine holding.reorder ?_ (fun a present => (holding.placed a present).congr (headers a present)) ?_
    · have restored : setList (setList state.freeLists order list) order (state.freeLists order) =
          state.freeLists := by
        funext o
        by_cases same : o = order
        · rw [same,setList_same]
        · rw [setList_other same,setList_other same]
      have moved := freeBlocks_update (setList state.freeLists order list) (state.freeLists order) base bound (by rw [setList_same]; exact perm)
      rw [restored] at moved
      simp only [allBlocks,blocks_congr headers]
      exact ((moved.append_right _).append_left hand).trans List.perm_middle
    · intro o limit
      by_cases same : o = order
      · subst same
        simp only [setList_same]
        exact linked
      · simp only [setList_other same]
        apply linked_congr (holding.linked o limit)
        intro c present
        apply read_congr
        intro x low high
        apply frame
        intro n node word
        have apart := holding.lists_apart limit bound same present (inList n node)
        unfold WordApart at apart
        omega

theorem remove_absent : removeFreeBlock state order base = none ↔ base ∉ state.freeLists order := by
  have absent : unlink base none (state.freeLists order) state.memory = none ↔ base ∉ state.freeLists order :=
    unlink_absent
  rw [← absent,removeFreeBlock]
  cases unlink base none (state.freeLists order) state.memory <;> simp

theorem mergedBlock_parent (b : Block) : mergedBlock b = b.parent := by
  simp only [mergedBlock,buddyBaseOf,blockSizeForOrder,Block.parent,Block.buddy,Nat.min_def]
  by_cases low : b.base ^^^ 2^b.order < b.base
  · simp [low,Nat.not_le.mpr low]
  · simp [low,Nat.not_lt.mp low]

-- The loop ends with a block that still holds its cells and, below the top
-- order, has no free buddy left.
theorem Holding.mergeUp (holding : Holding (b :: hand) state allocations cells) :
    Holding ((mergeUp b state).1 :: hand) (mergeUp b state).2 allocations cells ∧
      ((mergeUp b state).1.order < maxOrder →
        (mergeUp b state).1.buddy.base ∉ (mergeUp b state).2.freeLists (mergeUp b state).1.order) := by
  induction b, state using mergeUp.induct with
  | case1 b state below absent =>
    rw [BuddyAllocator.mergeUp,if_pos below]
    simp only [absent]
    exact ⟨holding,fun _ => remove_absent.mp absent⟩
  | case2 b state below after removed ih =>
    rw [BuddyAllocator.mergeUp,if_pos below]
    simp only [removed]
    apply ih
    rw [mergedBlock_parent]
    exact (holding.remove (holding.orders b (by simp)).2 removed).merge below
  | case3 b state top =>
    rw [BuddyAllocator.mergeUp,if_neg top]
    exact ⟨holding,fun below => absurd below top⟩

end Holding

end BuddyAllocator
