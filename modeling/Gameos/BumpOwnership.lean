import Gameos.TemporaryMarks

-- What temporary allocators and arenas give back of the memory they were lent.
namespace BumpAllocators
open MachineWords AllocatorTypes AllocatorCalls AllocatorContract AllocatorLending

namespace TemporaryState
variable {lender : Lender σ} {state : TemporaryState} {t : σ × List Entry}

-- What is lent is lent without an assertion, so no call stops.
theorem allocate_returns (owned : Owned lender state s) (size alignment : Int) :
    ∃ result, allocate lender.allocator size alignment state s = .ok result := by
  by_cases some_data : state.data = 0
  · unfold allocate
    exact ⟨_,if_pos some_data⟩
  by_cases invalid : size < 0 ∨ isPowerOfTwo alignment = false
  · unfold allocate
    exact ⟨_,(if_neg some_data).trans (if_pos invalid)⟩
  by_cases empty : size = 0
  · unfold allocate
    exact ⟨_,(if_neg some_data).trans ((if_neg invalid).trans (if_pos empty))⟩
  rw [not_or,Bool.not_eq_false] at invalid
  have positive : 0 < size := by omega
  cases first : state.allocateFromCurrentPage size alignment with
  | mk allocation occupied =>
  by_cases ends : allocation.memory ≠ 0 ∨ occupied.backed = false
  · exact ⟨_,allocate_first some_data positive invalid.2 first ends lender.allocator⟩
  · rw [not_or,not_not,Bool.not_eq_false] at ends
    obtain ⟨r,s',called,_⟩ := lender.lends owned.valid (pageBytes (occupied.pageSize size alignment)) maxAlign
    rcases asked_cases some_data positive invalid.2 first ends.1 ends.2 lender.allocator s with
      ⟨trapped,_⟩ | ⟨page,left,_,denied,granted⟩
    · rw [called] at trapped
      cases trapped
    · by_cases refused : page.memory = 0
      · exact ⟨_,denied refused⟩
      · cases again : (occupied.pushPage ⟨page.memory,occupied.pageSize size alignment⟩).allocateFromCurrentPage
            size alignment with
        | mk retry last => exact ⟨_,granted refused retry last again⟩

theorem resize_returns (owned : Owned lender state s) (size alignment oldSize : Int) (oldMemory : Nat) :
    ∃ result, resize lender.allocator size alignment oldSize oldMemory state s = .ok result := by
  by_cases invalid : size < 0 ∨ isPowerOfTwo alignment = false
  · unfold resize
    exact ⟨_,if_pos invalid⟩
  by_cases misaligned : oldMemory ≠ 0 ∧ oldMemory % toU64 alignment ≠ 0
  · unfold resize
    exact ⟨_,(if_neg invalid).trans (if_pos misaligned)⟩
  by_cases shrinks : size = 0 ∨ size ≤ oldSize
  · unfold resize
    exact ⟨_,(if_neg invalid).trans ((if_neg misaligned).trans (if_pos shrinks))⟩
  by_cases null : oldMemory = 0
  · subst null
    rw [resize_null size alignment oldSize lender.allocator s invalid shrinks]
    exact allocate_returns owned size alignment
  · unfold resize
    rw [if_neg invalid,if_neg misaligned,if_neg shrinks]
    split
    · exact ⟨_,rfl⟩
    · exact ⟨_,if_neg null⟩

-- The destructor gives back the pages, and the buffer where it was lent.
theorem destroy_returns (owned : Owned (client lender) state t) (exact_pages : Exact state) :
    ∃ t', destroy (logged lender.allocator) state t = .ok t' ∧ lender.valid t'.1 ∧ ledger t'.2 = some [] ∧
      (lender.live t.1).Perm (state.held ++ lender.live t'.1) := by
  obtain ⟨t₁,freed,order,left,gone⟩ := freeOverflowPages_all owned exact_pages
  have held_pages := held_exact exact_pages
  cases backed : state.backed with
  | false =>
      rw [backed,if_neg (by decide)] at left held_pages
      obtain ⟨blocks,_,books,held,_⟩ := client_held order
      rw [held,List.perm_nil] at left
      refine ⟨t₁,?_,order.1,by rw [books,left],?_⟩
      · unfold destroy
        rw [freed,ok_bind]
        dsimp only
        rw [if_neg (by rw [backed]; simp)]
        rfl
      · rw [held_pages,List.append_nil]
        exact gone
  | true =>
      rw [backed,if_pos rfl] at left held_pages
      have here : ⟨state.originalData,state.originalSize⟩ ∈ (ledger t₁.2).getD [] := left.symm.subset List.mem_cons_self
      obtain ⟨t₂,last,order',_,rest,gone'⟩ := client_takes order here
      have none := rest.trans (left.erase _)
      rw [List.erase_cons_head,List.perm_nil] at none
      obtain ⟨blocks,_,books,held,_⟩ := client_held order'
      refine ⟨t₂,?_,order'.1,by rw [books,← held,none],?_⟩
      · have run : underneath ((logged lender.allocator).free state.originalData state.originalSize 0 t₁) = .ok (.none,t₂) := by
          rw [show (logged lender.allocator).free state.originalData state.originalSize 0 t₁ = _ from last]
          rfl
        unfold destroy
        rw [freed,ok_bind]
        dsimp only
        rw [if_pos ⟨backed,owned.original.1⟩,run]
        rfl
      · rw [held_pages,List.append_assoc]
        exact gone.trans (gone'.append_left _)

-- The whole life of a temporary allocator is accepted: no call of it stops at an assertion of
-- the backing allocator, and in the end nothing is left of what it was lent.
structure Returns (lender : Lender σ) (c : Config (σ × List Entry)) : Prop where
  allocates : ∀ size alignment, ∃ result, allocate (logged lender.allocator) size alignment c.state c.backing = .ok result
  resizes : ∀ size alignment oldSize oldMemory, ∃ result,
    resize (logged lender.allocator) size alignment oldSize oldMemory c.state c.backing = .ok result
  rewinds : ∀ e, Nested (client lender) Whole c e → ∃ result,
    rewind (logged lender.allocator) c.state.mark e.state e.backing = .ok result
  resets : ∃ result, reset (logged lender.allocator) c.state c.backing = .ok result
  destroys : ∃ t', destroy (logged lender.allocator) c.state c.backing = .ok t' ∧ lender.valid t'.1 ∧
    ledger t'.2 = some [] ∧ (lender.live c.backing.1).Perm (c.state.held ++ lender.live t'.1)

theorem Reached.returns (reached : Reached (client lender) Whole c) : Returns lender c := by
  obtain ⟨owned,exact_pages⟩ := reached.keeps fun _ _ => id
  refine ⟨fun size alignment => allocate_returns owned size alignment,
    fun size alignment oldSize oldMemory => resize_returns owned size alignment oldSize oldMemory,fun e since => ?_,?_,
    destroy_returns owned exact_pages⟩
  · obtain ⟨owned',exact',kept⟩ := since.keeps (fun _ _ => id) owned exact_pages
    obtain ⟨_,t',_,back,_⟩ := rewind_exact owned' exact' kept owned.current exact_pages
    exact ⟨_,back⟩
  · obtain ⟨t',done,_⟩ := reset_exact owned exact_pages
    exact ⟨_,done⟩

end TemporaryState

namespace ArenaState

def held (state : ArenaState) : List Block := if state.backed then [⟨state.memoryBase,state.allocated⟩] else []

-- Every state of an arena whose memory is only replaced where it was lent. Without a
-- backing_allocator the lender is that of the context.
inductive Reached (lender : Lender σ) : ArenaState → σ → Prop where
  | overMemory (size : S64) : lender.valid s → lender.live s = [] → overMemory memory size.val = .ok state →
      Reached lender state s
  | backedBy (reserve : S64) : lender.valid before → lender.live before = [] →
      backedBy lender.allocator reserve.val before = .ok (state,s) → Reached lender state s
  | elsewhere : Reached lender state before → lender.valid s → (lender.live s).Perm (lender.live before) →
      Reached lender state s
  | allocate (size alignment : S64) : Reached lender before s → allocate size.val alignment.val before = (r,state) →
      Reached lender state s
  | resize (size alignment oldSize : S64) : Reached lender before s →
      resize size.val alignment.val oldSize.val oldMemory before = (r,state) → Reached lender state s
  | reset : Reached lender before s → Reached lender before.reset s
  | replaced (reserve : S64) : Reached lender before first → before.backed = true →
      resizeAndDontCopyOldMemory lender.allocator reserve.val before first = .ok (state,s) → Reached lender state s

variable {lender : Lender σ} {state : ArenaState}

theorem allocate_held (called : allocate size alignment state = (r,after)) :
    after.held = state.held ∧ after.backed = state.backed := by
  unfold allocate at called
  split at called
  · cases called
    exact ⟨rfl,rfl⟩
  split at called
  · cases called
    exact ⟨rfl,rfl⟩
  split at called
  · cases called
    exact ⟨rfl,rfl⟩
  split at called
  · cases called
    exact ⟨rfl,rfl⟩
  · cases called
    exact ⟨rfl,rfl⟩

theorem resize_held (called : resize size alignment oldSize oldMemory state = (r,after)) :
    after.held = state.held ∧ after.backed = state.backed := by
  unfold resize at called
  split at called
  · cases called
    exact ⟨rfl,rfl⟩
  split at called
  · cases called
    exact ⟨rfl,rfl⟩
  split at called
  · cases called
    exact ⟨rfl,rfl⟩
  split at called
  · cases called
    exact ⟨rfl,rfl⟩
  split at called
  · exact allocate_held called
  · cases called
    exact ⟨rfl,rfl⟩

-- The new memory is lent before the old goes back.
theorem replaced_held (valid : lender.valid s) (books : (lender.live s).Perm state.held) (backed : state.backed = true)
    (reserve : Int) :
    resizeAndDontCopyOldMemory lender.allocator reserve state s = .error .asserted ∨
      ∃ after s', resizeAndDontCopyOldMemory lender.allocator reserve state s = .ok (after,s') ∧ lender.valid s' ∧
        (lender.live s').Perm after.held := by
  unfold resizeAndDontCopyOldMemory
  dsimp only
  generalize alignUpSize reserve pageSize = bytes
  obtain ⟨r,s₁,asked,valid₁,granted⟩ := lender.lends valid bytes maxAlign
  have run : underneath (lender.allocator.alloc bytes maxAlign s) = .ok (r,s₁) := by
    rw [asked]
    rfl
  rw [run,TemporaryState.ok_bind]
  dsimp only
  rcases granted with ⟨null,_⟩ | ⟨_,fresh,more⟩
  · left
    rw [null]
    rfl
  · right
    rw [held,backed,if_pos rfl] at books
    have both := more.trans (books.cons _)
    have here : ⟨state.memoryBase,state.allocated⟩ ∈ lender.live s₁ :=
      both.symm.subset (List.mem_cons_of_mem _ List.mem_cons_self)
    obtain ⟨s₂,freed,valid₂,left⟩ := lender.takes valid₁ here
    have run' : underneath (lender.allocator.free state.memoryBase state.allocated 0 s₁) = .ok (.none,s₂) := by
      rw [show lender.allocator.free state.memoryBase state.allocated 0 s₁ = _ from freed]
      rfl
    have rest := left.trans ((both.trans (.swap ..)).erase _)
    rw [List.erase_cons_head] at rest
    rw [decide_eq_true fresh.notNull]
    refine ⟨{ state with
      allocated := bytes
      memoryBase := r.memory
      currentPoint := r.memory
      addressLimit := add64 r.memory (toU64 bytes) },s₂,?_,valid₂,?_⟩
    · show (underneath (lender.allocator.free state.memoryBase state.allocated 0 s₁) >>= _) = _
      rw [run']
      rfl
    · rw [held,if_pos backed]
      exact rest

theorem Reached.keeps (reached : Reached lender state s) : lender.valid s ∧ (lender.live s).Perm state.held := by
  induction reached with
  | overMemory size valid nothing called =>
      unfold ArenaState.overMemory at called
      obtain ⟨_,called⟩ := TemporaryState.demand_passes called
      obtain ⟨_,called⟩ := TemporaryState.demand_passes called
      cases called
      rw [nothing]
      exact ⟨valid,.refl _⟩
  | backedBy reserve valid nothing called =>
      rename_i before state s
      unfold ArenaState.backedBy at called
      dsimp only at called
      generalize alignUpSize reserve.val pageSize = allocated at called
      obtain ⟨r,s',asked,valid',granted⟩ := lender.lends valid allocated maxAlign
      have run : underneath (lender.allocator.alloc allocated maxAlign before) = .ok (r,s') := by
        rw [asked]
        rfl
      rw [run,TemporaryState.ok_bind] at called
      obtain ⟨notNull,called⟩ := TemporaryState.demand_passes called
      obtain ⟨_,called⟩ := TemporaryState.demand_passes called
      cases called
      have some_memory : r.memory ≠ 0 := by simpa using notNull
      rcases granted with ⟨null,_⟩ | ⟨_,_,more⟩
      · exact absurd null some_memory
      · rw [nothing] at more
        exact ⟨valid',more⟩
  | elsewhere _ valid same ih => exact ⟨valid,same.trans ih.2⟩
  | allocate size alignment _ called ih =>
      rw [(allocate_held called).1]
      exact ih
  | resize size alignment oldSize _ called ih =>
      rw [(resize_held called).1]
      exact ih
  | reset _ ih => exact ih
  | replaced reserve _ backed called ih =>
      rcases replaced_held ih.1 ih.2 backed reserve.val with stopped | ⟨after,s',done,valid,books⟩
      · rw [stopped] at called
        cases called
      · rw [done] at called
        cases called
        exact ⟨valid,books⟩

structure Returns (lender : Lender σ) (state : ArenaState) (t : σ × List Entry) : Prop where
  replaces : ∀ reserve, state.backed = true →
    resizeAndDontCopyOldMemory (logged lender.allocator) reserve state t ≠ .error .rejected
  destroys : ∃ t', destroy (logged lender.allocator) state t = .ok t' ∧ lender.valid t'.1 ∧ ledger t'.2 = some [] ∧
    (lender.live t.1).Perm (state.held ++ lender.live t'.1)

theorem Reached.returns {t : σ × List Entry} (reached : Reached (client lender) state t) : Returns lender state t := by
  obtain ⟨order,books⟩ := reached.keeps
  refine ⟨fun reserve backed rejected => ?_,?_⟩
  · rcases replaced_held order books backed reserve with stopped | ⟨after,t',done,_⟩
    · have traps := stopped.symm.trans rejected
      cases traps
    · have traps := done.symm.trans rejected
      cases traps
  · unfold destroy held
    have listed : ((ledger t.2).getD []).Perm state.held := books
    obtain ⟨blocks,_,entered,all,_⟩ := client_held order
    unfold held at listed
    split
    · rename_i backed
      rw [if_pos backed] at listed
      have here : ⟨state.memoryBase,state.allocated⟩ ∈ (ledger t.2).getD [] := listed.symm.subset List.mem_cons_self
      obtain ⟨t',freed,order',_,left,gone⟩ := client_takes order here
      have none := left.trans (listed.erase _)
      rw [List.erase_cons_head,List.perm_nil] at none
      obtain ⟨_,_,entered',all',_⟩ := client_held order'
      have run : underneath ((logged lender.allocator).free state.memoryBase state.allocated 0 t) = .ok (.none,t') := by
        rw [show (logged lender.allocator).free state.memoryBase state.allocated 0 t = _ from freed]
        rfl
      refine ⟨t',?_,order'.1,by rw [entered',← all',none],gone⟩
      rw [run]
      rfl
    · rename_i unbacked
      rw [if_neg unbacked,all,List.perm_nil] at listed
      exact ⟨t,rfl,order.1,by rw [entered,listed],.refl _⟩

end ArenaState

-- Where every overflow page is whole and an arena replaces only memory that it was lent, all
-- memory that was lent goes back once and with its size, and nothing else does: no call
-- is stopped by the lender, and a debug allocator finds no leak.
theorem memory_returned (lender : Lender σ) :
    (∀ c, TemporaryState.Reached (client lender) TemporaryState.Whole c → TemporaryState.Returns lender c) ∧
    (∀ state t, ArenaState.Reached (client lender) state t → ArenaState.Returns lender state t) ∧
    ∀ (allocator : Allocator σ) (live : σ → List Block) (contract : Contract allocator live) (frees : Frees allocator live),
      (∀ c, TemporaryState.Reached (client (debugging contract frees)) TemporaryState.Whole c →
        (c.backing.1.records.map DebugAllocator.payload).Perm c.state.held →
        ∃ t', TemporaryState.destroy (logged (DebugAllocator.debug allocator)) c.state c.backing = .ok t' ∧
          t'.1.leaked = false) ∧
      ∀ state t, ArenaState.Reached (client (debugging contract frees)) state t →
        (t.1.records.map DebugAllocator.payload).Perm state.held →
        ∃ t', ArenaState.destroy (logged (DebugAllocator.debug allocator)) state t = .ok t' ∧ t'.1.leaked = false := by
  have nothing_left : ∀ {held rest : List Block}, held.Perm (held ++ rest) → rest = [] := by
    intro held rest perm
    have lengths := perm.length_eq
    rw [List.length_append] at lengths
    exact List.length_eq_zero_iff.mp (by omega)
  refine ⟨fun c reached => reached.returns,fun state t reached => reached.returns,
    fun allocator live contract frees => ⟨fun c reached only => ?_,fun state t reached only => ?_⟩⟩
  · obtain ⟨t',done,valid,_,left⟩ := reached.returns.destroys
    have none := nothing_left (only.symm.trans left)
    exact ⟨t',done,(debugging_leaked contract frees valid).mpr none⟩
  · obtain ⟨t',done,valid,_,left⟩ := reached.returns.destroys
    have none := nothing_left (only.symm.trans left)
    exact ⟨t',done,(debugging_leaked contract frees valid).mpr none⟩

-- With a page of 112 bytes, which are 128 with its header.
theorem memory_returned_page : ∃ (c : TemporaryState.Config (Shelf × List Entry)) (t' : Shelf × List Entry),
    c.state.overflowPages = [⟨8589934592,112⟩] ∧
      TemporaryState.destroy (logged shelves) c.state c.backing = .ok t' ∧ ledger t'.2 = some [] := by
  have page : TemporaryState.lentForty.pageSize 96 16 = 112 := by decide
  have again : bump (TemporaryState.lentForty.pushPage ⟨8589934592,112⟩).currentPoint
      (TemporaryState.lentForty.pushPage ⟨8589934592,112⟩).limit 96 16 = some (8589934608,8589934704) := by decide
  obtain ⟨s,called⟩ := TemporaryState.page_pushed (by decide : (0 : Int) < 96) (by decide : isPowerOfTwo 16 = true) (by decide)
    page (by decide) again
  have whole : TemporaryState.Whole ⟨TemporaryState.lentForty,TemporaryState.onShelf,[]⟩
      (.allocate ⟨96,by decide⟩ ⟨16,by decide⟩) := by
    intro _ _ _ _
    show (16 : Int) ∣ TemporaryState.lentForty.pageSize 96 16
    rw [page]
    decide
  have step := TemporaryState.Step.allocated (c:=⟨TemporaryState.lentForty,TemporaryState.onShelf,[]⟩)
    (show S64 from ⟨96,by decide⟩) ⟨16,by decide⟩
    (show TemporaryState.allocate (client (ofContract shelves_contract shelves_free)).allocator 96 16
      TemporaryState.lentForty TemporaryState.onShelf = _ from called)
  obtain ⟨t',done,_,books,_⟩ := ((memory_returned (ofContract shelves_contract shelves_free)).1 _
    (.run (.made TemporaryState.lentForty_made) (.step .stay whole step))).destroys
  exact ⟨_,t',rfl,done,books⟩

-- A page is freed with 120 of the 128 bytes that were lent for it; and an arena over a buffer
-- of its caller gives that buffer to an allocator it never came from.
theorem wrong_blocks_freed :
    (¬ ∀ c : TemporaryState.Config (Shelf × List Entry),
      TemporaryState.Reached (client (ofContract shelves_contract shelves_free)) (fun _ _ => True) c →
      ∃ t', TemporaryState.destroy (logged shelves) c.state c.backing = .ok t' ∧ ledger t'.2 = some []) ∧
    ∃ after t, ArenaState.overMemory 4096 64 = .ok ⟨64,4096,4096,4160,false⟩ ∧
      ArenaState.resizeAndDontCopyOldMemory (logged shelves) 1 ⟨64,4096,4096,4160,false⟩ (Shelf.empty 1,[]) = .ok (after,t) ∧
      t.2 = [.returned ⟨4096,64⟩,.obtained ⟨4294967296,4096⟩] ∧ ledger t.2 = none := by
  refine ⟨fun every => ?_,?_⟩
  · have again : bump (TemporaryState.lentForty.pushPage ⟨8589934592,104⟩).currentPoint
        (TemporaryState.lentForty.pushPage ⟨8589934592,104⟩).limit 100 4 = some (8589934608,8589934708) := by decide
    obtain ⟨s,called⟩ := TemporaryState.page_pushed (by decide : (0 : Int) < 100) (by decide : isPowerOfTwo 4 = true) (by decide)
      (by decide) (by decide) again
    have step := TemporaryState.Step.allocated (c:=⟨TemporaryState.lentForty,TemporaryState.onShelf,[]⟩)
      (show S64 from ⟨100,by decide⟩) ⟨4,by decide⟩
      (show TemporaryState.allocate (client (ofContract shelves_contract shelves_free)).allocator 100 4
        TemporaryState.lentForty TemporaryState.onShelf = _ from called)
    obtain ⟨t',done,books⟩ := every _ (.run (.made TemporaryState.lentForty_made) (.step .stay trivial step))
    have ran : ∃ u, TemporaryState.destroy (logged shelves)
        ((TemporaryState.lentForty.pushPage ⟨8589934592,104⟩).occupy 8589934708) (s,TemporaryState.pageLog) =
          .ok (u,.returned ⟨4294967296,40⟩ :: .returned ⟨8589934592,120⟩ :: TemporaryState.pageLog) := ⟨_,rfl⟩
    obtain ⟨u,ran⟩ := ran
    have same := done.symm.trans ran
    cases same
    have lost : ledger (.returned ⟨4294967296,40⟩ :: .returned ⟨8589934592,120⟩ :: TemporaryState.pageLog) = none := by decide
    have found : ledger (.returned ⟨4294967296,40⟩ :: .returned ⟨8589934592,120⟩ :: TemporaryState.pageLog) = some [] := books
    rw [lost] at found
    cases found
  · exact ⟨_,_,rfl,rfl,rfl,by decide⟩

end BumpAllocators
