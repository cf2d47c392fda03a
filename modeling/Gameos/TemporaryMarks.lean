import Gameos.BumpPlacement

-- mark and rewind of a temporary allocator, and what its client's log then says.
namespace BumpAllocators
open MachineWords AllocatorTypes AllocatorCalls AllocatorContract AllocatorLending TransitionRuns

namespace TemporaryState
variable {lender : Lender σ} {state : TemporaryState} {t : σ × List Entry}

-- A page that this call asks for is as long as what is asked of the backing allocator.
def WholePage (size alignment : Int) (state : TemporaryState) : Prop :=
  0 < size → isPowerOfTwo alignment = true → state.backed = true → state.NoRoom size alignment →
    16 ∣ state.pageSize size alignment

def Whole (c : Config σ) : Call → Prop
  | .allocate size alignment => WholePage size.val alignment.val c.state
  | .resize size alignment oldSize oldMemory =>
    oldMemory = 0 → oldSize.val < size.val → WholePage size.val alignment.val c.state
  | .elsewhere => True

theorem pageBytes_whole (length : Int) (low : 0 ≤ length) (high : length < 9223372036854775808) (whole : 16 ∣ length)
    (given : 0 ≤ pageBytes length) : pageBytes length = overflowPageHeaderSize + length := by
  have word : toU64 (toS64 (overflowPageHeaderSize + length)) = (16 + length).toNat := by
    unfold overflowPageHeaderSize toU64 toS64
    omega
  obtain ⟨above,below,divides⟩ := alignUp_bounds (16 + length).toNat 4 (by decide) (by omega)
  unfold pageBytes alignUpSize at given ⊢
  rw [word] at given ⊢
  unfold maxAlign at given ⊢
  have sixteen : (2:Nat)^4 = 16 := rfl
  rw [sixteen] at above below divides
  unfold toS64 at given ⊢
  unfold overflowPageHeaderSize
  omega

-- The pages are freed with the size they were asked for.
def Exact (state : TemporaryState) : Prop :=
  ∀ page ∈ state.overflowPages, pageBytes page.size = overflowPageHeaderSize + page.size

theorem Exact.pushed {size alignment : Int} (exact_pages : Exact state) (tried : Tried size alignment state after)
    (whole : pageBytes length = overflowPageHeaderSize + length) : Exact (after.pushPage ⟨address,length⟩) := by
  intro page here
  rcases List.mem_cons.mp here with rfl | here
  · exact whole
  · rw [tried.fields.2.2.2.2.1] at here
    exact exact_pages page here

theorem Exact.same (exact_pages : Exact state) (pages : after.overflowPages = state.overflowPages) : Exact after := by
  intro page here
  rw [pages] at here
  exact exact_pages page here

theorem Allocated.exact {lender : Lender σ} {size alignment : S64}
    (done : Allocated lender.allocator size.val alignment.val state s r after s') (owned : Owned lender state s)
    (exact_pages : Exact state) (whole : WholePage size.val alignment.val state) : Exact after := by
  have length : 0 < size.val → isPowerOfTwo alignment.val = true → state.backed = true →
      state.NoRoom size.val alignment.val → ∀ {page s'},
      lender.allocator.alloc (pageBytes (state.pageSize size.val alignment.val)) maxAlign s = some (page,s') →
      page.memory ≠ 0 → pageBytes (state.pageSize size.val alignment.val) =
        overflowPageHeaderSize + state.pageSize size.val alignment.val := by
    intro positive power backed full page s' asked notNull
    obtain ⟨low,high⟩ := owned.page_range size alignment positive power
    obtain ⟨_,granted⟩ := lent owned.valid asked
    rcases granted with ⟨null,_⟩ | ⟨_,fresh,_⟩
    · exact absurd null notNull
    · exact pageBytes_whole _ low high (whole positive power backed full) (Int.le_of_lt fresh.positive)
  cases done with
  | unchanged => exact exact_pages
  | here => exact exact_pages.same (occupy_fields state _).2.2.2.2.1
  | refused _ _ _ tried => exact exact_pages.same tried.fields.2.2.2.2.1
  | unused positive power backed tried asked notNull =>
      exact exact_pages.pushed tried (length positive power backed tried.nowhere asked notNull)
  | pushed positive power backed tried asked notNull =>
      exact (exact_pages.pushed tried (length positive power backed tried.nowhere asked notNull)).same
        (occupy_fields _ _).2.2.2.2.1

theorem Resized.exact {lender : Lender σ} {size alignment oldSize : S64}
    (done : Resized lender.allocator size.val alignment.val oldSize.val oldMemory state s r after s')
    (owned : Owned lender state s) (exact_pages : Exact state)
    (whole : oldMemory = 0 → oldSize.val < size.val → WholePage size.val alignment.val state) : Exact after := by
  cases done with
  | failed => exact exact_pages
  | shrunk => exact exact_pages
  | grown => exact exact_pages.same (extend_fields state _ _ _).2.2.2.2.1
  | allocated null larger done => exact done.exact owned exact_pages (whole null larger)

theorem Step.exact {lender : Lender σ} (step : Step lender c call d) (owned : Owned lender c.state c.backing)
    (exact_pages : Exact c.state) (whole : Whole c call) : Exact d.state := by
  cases step with
  | allocated size alignment called => exact (allocate_cases called).exact owned exact_pages whole
  | resizedNull size alignment oldSize called => exact (resize_cases called).exact owned exact_pages whole
  | resized size alignment oldSize _ _ called => exact (resize_cases called).exact owned exact_pages whole
  | elsewhere => exact exact_pages

-- The buffer stays, and pages only come on top.
structure Since (before after : TemporaryState) : Prop where
  data : after.originalData = before.originalData
  size : after.originalSize = before.originalSize
  backed : after.backed = before.backed
  pages : before.overflowPages <:+ after.overflowPages

theorem Since.refl (state : TemporaryState) : Since state state := ⟨rfl,rfl,rfl,List.suffix_refl _⟩

theorem Since.trans (first : Since a b) (second : Since b c) : Since a c :=
  ⟨second.data.trans first.data,second.size.trans first.size,second.backed.trans first.backed,first.pages.trans second.pages⟩

theorem Tried.since {size alignment : Int} (tried : Tried size alignment state after) : Since state after := by
  obtain ⟨a,b,_,_,e,f⟩ := tried.fields
  exact ⟨a,b,f,[],e.symm⟩

theorem occupy_since (state : TemporaryState) (next : Nat) : Since state (state.occupy next) := by
  obtain ⟨a,b,_,_,e,f,_⟩ := occupy_fields state next
  exact ⟨a,b,f,[],e.symm⟩

theorem push_since (state : TemporaryState) (page : OverflowPage) : Since state (state.pushPage page) :=
  ⟨rfl,rfl,rfl,List.suffix_cons _ _⟩

theorem Allocated.since {allocator : Allocator σ} {size alignment : Int}
    (done : Allocated allocator size alignment state s r after s') : Since state after := by
  cases done with
  | unchanged => exact .refl _
  | here => exact occupy_since _ _
  | refused _ _ _ tried => exact tried.since
  | unused _ _ _ tried => exact tried.since.trans (push_since _ _)
  | pushed _ _ _ tried => exact (tried.since.trans (push_since _ _)).trans (occupy_since _ _)

theorem Resized.since {allocator : Allocator σ} {size alignment oldSize : Int}
    (done : Resized allocator size alignment oldSize oldMemory state s r after s') : Since state after := by
  cases done with
  | failed => exact .refl _
  | shrunk => exact .refl _
  | grown =>
      obtain ⟨a,b,_,_,e,f,_⟩ := extend_fields state _ _ _
      exact ⟨a,b,f,[],e.symm⟩
  | allocated _ _ done => exact done.since

theorem Step.since {lender : Lender σ} (step : Step lender c call d) : Since c.state d.state := by
  cases step with
  | allocated size alignment called => exact (allocate_cases called).since
  | resizedNull size alignment oldSize called => exact (resize_cases called).since
  | resized size alignment oldSize _ _ called => exact (resize_cases called).since
  | elsewhere => exact .refl _

section Freeing

def pageBlock (page : OverflowPage) : Block := ⟨page.address,overflowPageHeaderSize + page.size⟩

-- The loop frees the pages before its target, each once and with its size.
theorem freePages_prefix (target : Nat) {rest : List OverflowPage} {tail : List Block} (stops : freePages (logged lender.allocator) target rest = fun t => .ok (rest,t))
    (added : List OverflowPage) (t : σ × List Entry) (order : InOrder lender t)
    (books : ((ledger t.2).getD []).Perm (added.map pageBlock ++ tail))
    (older : ∀ page ∈ added, page.address ≠ target) :
    ∃ t', freePages (logged lender.allocator) target (added ++ rest) t = .ok (rest,t') ∧ InOrder lender t' ∧
      t'.2 = (added.reverse.map fun page => .returned (pageBlock page)) ++ t.2 ∧
      ((ledger t'.2).getD []).Perm tail ∧ (lender.live t.1).Perm (added.map pageBlock ++ lender.live t'.1) := by
  induction added generalizing t with
  | nil =>
      refine ⟨t,?_,order,rfl,books,.refl _⟩
      rw [List.nil_append,stops]
  | cons page added ih =>
      have here : pageBlock page ∈ (ledger t.2).getD [] := books.symm.subset List.mem_cons_self
      obtain ⟨t₁,freed,order₁,log,left,gone⟩ := client_takes order here
      have fewer := left.trans (books.erase (pageBlock page))
      rw [List.map_cons,List.cons_append,List.erase_cons_head] at fewer
      obtain ⟨t',loop,order',log',left',gone'⟩ := ih t₁ order₁ fewer fun other later => older other (List.mem_cons_of_mem _ later)
      have run : underneath ((logged lender.allocator).free page.address (overflowPageHeaderSize + page.size) 0 t) =
          .ok (.none,t₁) := by
        rw [show (logged lender.allocator).free page.address (overflowPageHeaderSize + page.size) 0 t = _ from freed]
        rfl
      refine ⟨t',?_,order',?_,left',gone.trans (gone'.cons _)⟩
      · rw [List.cons_append,freePages,if_neg (older page List.mem_cons_self),run,ok_bind]
        exact loop
      · rw [log',log,List.reverse_cons,List.map_append,List.append_assoc]
        rfl

theorem held_exact (exact_pages : Exact state) :
    state.held = state.overflowPages.map pageBlock ++ if state.backed then [⟨state.originalData,state.originalSize⟩] else [] := by
  have same : state.overflowPages.map (fun page => (⟨page.address,pageBytes page.size⟩ : Block)) =
      state.overflowPages.map pageBlock :=
    List.map_congr_left fun page here => by rw [pageBlock,exact_pages page here]
  rw [held,same]

-- Two pages never begin at one place, and none at null.
theorem Owned.places (owned : Owned lender state s) (split : state.overflowPages = added ++ rest) :
    ∀ page ∈ added, page.address ≠ ({state with overflowPages := rest} : TemporaryState).topOverflowPage := by
  intro page here
  have among : page ∈ state.overflowPages := by
    rw [split]
    exact List.mem_append_left _ here
  have lent := (owned.books.pairwise_iff fun either => Or.symm either).mp (lender.apart owned.valid)
  have sized : ∀ block ∈ state.held, block.pointer ≠ 0 ∧ 0 < block.size := fun block listed =>
    lender.sized owned.valid block (owned.books.symm.subset listed)
  rw [held,List.pairwise_append,List.pairwise_map,split,List.pairwise_append] at lent
  have own := sized _ (List.mem_append_left _ (List.mem_map_of_mem among))
  cases rest with
  | nil => exact own.1
  | cons top rest =>
      have other := sized ⟨top.address,pageBytes top.size⟩ (List.mem_append_left _ (List.mem_map_of_mem (by
        rw [split]
        exact List.mem_append_right _ List.mem_cons_self)))
      exact apart_pointers (lent.1.2.2 page here top List.mem_cons_self) own.2 other.2

theorem freePages_stops (allocator : Allocator σ) (state : TemporaryState) :
    freePages allocator state.topOverflowPage state.overflowPages = fun s => .ok (state.overflowPages,s) := by
  funext s
  unfold topOverflowPage
  cases state.overflowPages with
  | nil => exact if_pos rfl
  | cons page pages => exact if_pos rfl

end Freeing

section Rewind
variable {older : TemporaryState}

-- Back to a mark of the same buffer, the pages that came since are freed, and no other.
theorem rewind_exact (owned : Owned (client lender) state t) (exact_pages : Exact state) (since : Since older state)
    (placed : (older.data,older.size) = older.currentPage older.overflowPages) (held_exact' : Exact older) :
    ∃ added t', state.overflowPages = added ++ older.overflowPages ∧
      rewind (logged lender.allocator) older.mark state t = .ok ({older with highWaterMark := state.highWaterMark},t') ∧
      t'.2 = (added.reverse.map fun page => .returned (pageBlock page)) ++ t.2 ∧
      Owned (client lender) {older with highWaterMark := state.highWaterMark} t' := by
  obtain ⟨added,split⟩ := since.pages
  have books : ((ledger t.2).getD []).Perm (added.map pageBlock ++ older.held) := by
    have all := owned.books
    rw [TemporaryState.held_exact exact_pages,← split,List.map_append,List.append_assoc,since.data,since.size,since.backed] at all
    rw [TemporaryState.held_exact held_exact']
    exact all
  have apart := owned.places split.symm
  obtain ⟨t',freed,order,log,left,_⟩ := freePages_prefix older.topOverflowPage (freePages_stops _ older) added t owned.valid books apart
  refine ⟨added,t',split.symm,?_,log,?_⟩
  · have pages : freePages (logged lender.allocator) older.mark.topOverflowPage state.overflowPages t = .ok (older.overflowPages,t') := by
      rw [← split]
      exact freed
    have place : state.currentPage older.overflowPages = (older.data,older.size) := by
      rw [placed]
      unfold currentPage
      rw [since.data,since.size]
    unfold rewind freeOverflowPages
    rw [pages,ok_bind]
    dsimp only
    rw [place]
    unfold mark
    rw [since.data,since.size,since.backed]
    rfl
  · refine ⟨order,left,fun unbacked => ?_,fun page here => owned.sizes page (since.pages.subset here),?_,placed⟩
    · have none := owned.pages (since.backed.trans unbacked)
      have pages := since.pages
      rw [none,List.suffix_nil] at pages
      exact pages
    · have original := owned.original
      rw [since.data,since.size] at original
      exact original

-- Without a target every page is freed.
theorem freeOverflowPages_all (owned : Owned (client lender) state t) (exact_pages : Exact state) :
    ∃ t', freeOverflowPages (logged lender.allocator) 0 state t =
        .ok ({state with overflowPages := [], data := state.originalData, size := state.originalSize},t') ∧
      InOrder lender t' ∧
      ((ledger t'.2).getD []).Perm (if state.backed then [⟨state.originalData,state.originalSize⟩] else []) ∧
      (lender.live t.1).Perm (state.overflowPages.map pageBlock ++ lender.live t'.1) := by
  have books := owned.books
  rw [TemporaryState.held_exact exact_pages] at books
  have apart := owned.places (List.append_nil _).symm
  obtain ⟨t',freed,order,_,left,gone⟩ := freePages_prefix 0 (freePages_stops _ {state with overflowPages := []})
    state.overflowPages t owned.valid books apart
  refine ⟨t',?_,order,left,gone⟩
  rw [List.append_nil] at freed
  unfold freeOverflowPages
  rw [freed]
  rfl

theorem reset_exact (owned : Owned (client lender) state t) (exact_pages : Exact state) :
    ∃ t', reset (logged lender.allocator) state t =
        .ok ({ state with
          overflowPages := []
          data := state.originalData
          size := state.originalSize
          currentPageBytesOccupied := 0
          totalBytesOccupied := 0
          highWaterMark := 0 },t') ∧
      InOrder lender t' ∧
      ((ledger t'.2).getD []).Perm (if state.backed then [⟨state.originalData,state.originalSize⟩] else []) := by
  obtain ⟨t',freed,order,left,_⟩ := freeOverflowPages_all owned exact_pages
  refine ⟨t',?_,order,left⟩
  unfold reset
  rw [freed]
  rfl

end Rewind

-- What every call and every rewind keeps.
theorem Nested.keeps {admits : Config (σ × List Entry) → Call → Prop} (whole : ∀ c call, admits c call → Whole c call)
    (nested : Nested (client lender) admits c d) (owned : Owned (client lender) c.state c.backing) (exact_pages : Exact c.state) :
    Owned (client lender) d.state d.backing ∧ Exact d.state ∧ Since c.state d.state := by
  induction nested with
  | stay => exact ⟨owned,exact_pages,.refl _⟩
  | step _ allowed step ih =>
      obtain ⟨owned',exact',since⟩ := ih owned exact_pages
      exact ⟨step.owned owned',step.exact owned' exact' (whole _ _ allowed),since.trans step.since⟩
  | rewind _ _ called outer inner =>
      obtain ⟨owned',exact',since⟩ := outer owned exact_pages
      obtain ⟨owned'',exact'',since'⟩ := inner owned' exact'
      obtain ⟨_,t',_,back,_,kept⟩ := rewind_exact owned'' exact'' since' owned'.current exact'
      have same := called.symm.trans back
      cases same
      exact ⟨kept,exact',since.data,since.size,since.backed,since.pages⟩

theorem Nested.laid {admits : Config (σ × List Entry) → Call → Prop} (whole : ∀ c call, admits c call → Whole c call)
    (clear : ∀ c call, admits c call → Unwrapped (client lender) c call)
    (nested : Nested (client lender) admits c d) (owned : Owned (client lender) c.state c.backing) (exact_pages : Exact c.state)
    (laid : Laid c.state c.pieces) : Laid d.state d.pieces := by
  induction nested with
  | stay => exact laid
  | step nested allowed step ih =>
      exact step.laid (nested.keeps whole owned exact_pages).1 (ih owned exact_pages laid) (clear _ _ allowed)
  | rewind first second called outer inner =>
      rename_i middle last _ _
      obtain ⟨owned',exact',_⟩ := first.keeps whole owned exact_pages
      obtain ⟨owned'',exact'',since'⟩ := second.keeps whole owned' exact'
      obtain ⟨_,t',_,back,_⟩ := rewind_exact owned'' exact'' since' owned'.current exact'
      have same := called.symm.trans back
      cases same
      have kept := (outer owned exact_pages laid).fewer (List.filter_sublist (p:=fun piece => decide (piece ∈ last.pieces)))
      exact ⟨⟨kept.placed,kept.apart⟩,kept.occupied,kept.behind⟩

theorem Reached.keeps {admits : Config (σ × List Entry) → Call → Prop} (whole : ∀ c call, admits c call → Whole c call)
    (reached : Reached (client lender) admits c) : Owned (client lender) c.state c.backing ∧ Exact c.state := by
  induction reached with
  | made made =>
      obtain ⟨owned,_,_,none⟩ := made.starts
      refine ⟨owned,fun page here => ?_⟩
      rw [none] at here
      cases here
  | run _ nested ih => 
      obtain ⟨owned,exact',_⟩ := nested.keeps whole ih.1 ih.2
      exact ⟨owned,exact'⟩
  | reset _ called ih =>
      obtain ⟨t',done,order,left⟩ := reset_exact ih.1 ih.2
      have same := called.symm.trans done
      cases same
      refine ⟨⟨order,left,fun _ => rfl,(fun _ here => nomatch here),ih.1.original,rfl⟩,fun _ here => nomatch here⟩

def Careful (lender : Lender σ) (c : Config (σ × List Entry)) (call : Call) : Prop :=
  Unwrapped (client lender) c call ∧ Whole c call

theorem Reached.laid (reached : Reached (client lender) (Careful lender) c) : Laid c.state c.pieces := by
  induction reached with
  | made made => exact made.laid
  | run reached nested ih =>
      obtain ⟨owned,exact_pages⟩ := reached.keeps fun _ _ => And.right
      exact nested.laid (fun _ _ => And.right) (fun _ _ => And.left) owned exact_pages ih
  | reset reached called =>
      obtain ⟨owned,exact_pages⟩ := reached.keeps fun _ _ => And.right
      obtain ⟨_,done,_⟩ := reset_exact owned exact_pages
      have same := called.symm.trans done
      cases same
      have low := owned.original.2.1
      refine ⟨⟨(fun _ here => nomatch here),.nil⟩,⟨Int.le_refl 0,Int.le_of_lt low⟩,(fun _ here => nomatch here)⟩

-- Where no call wraps and every page is whole, a rewind restores the state of its mark, and
-- gives back the pages that came since and no other. What is held behind it stays apart
-- from everything that is allocated later.
theorem rewind_restores (lender : Lender σ) (reached : Reached (client lender) (Careful lender) c)
    (since : Nested (client lender) (Careful lender) c e) :
    ∃ added t', e.state.overflowPages = added ++ c.state.overflowPages ∧
      rewind (logged lender.allocator) c.state.mark e.state e.backing =
        .ok ({c.state with highWaterMark := e.state.highWaterMark},t') ∧
      t'.2 = (added.reverse.map fun page => .returned (pageBlock page)) ++ e.backing.2 ∧ InOrder lender t' ∧
      ∀ later, Nested (client lender) (Careful lender)
          ⟨{c.state with highWaterMark := e.state.highWaterMark},t',c.pieces.filter (· ∈ e.pieces)⟩ later →
        later.pieces.Pairwise fun a b => Apart a.toBlock b.toBlock := by
  obtain ⟨owned,exact_pages⟩ := reached.keeps fun _ _ => And.right
  obtain ⟨owned',exact',kept⟩ := since.keeps (fun _ _ => And.right) owned exact_pages
  obtain ⟨added,t',split,back,log,left⟩ := rewind_exact owned' exact' kept owned.current exact_pages
  refine ⟨added,t',split,back,log,left.valid,fun later nested => ?_⟩
  have behind : Reached (client lender) (Careful lender)
      ⟨{c.state with highWaterMark := e.state.highWaterMark},t',c.pieces.filter (· ∈ e.pieces)⟩ :=
    .run reached (.rewind .stay since back)
  exact (Reached.run behind nested).laid.apart

section Pages

-- An allocator that was lent 40 bytes, and is lent 128 more for a page.
def lentForty : TemporaryState := ⟨4294967296,40,4294967296,40,0,0,0,[],true⟩
def onShelf : Shelf × List Entry := ((Shelf.empty 10).push 40 (by decide) (by decide),[.obtained ⟨4294967296,40⟩])
def pageLog : List Entry := [.obtained ⟨8589934592,128⟩,.obtained ⟨4294967296,40⟩]

theorem lentForty_made : Made (client (ofContract shelves_contract shelves_free)) ⟨lentForty,onShelf,[]⟩ :=
  .backedBy (s:=onShelf) ⟨40,by decide⟩ (show InOrder _ (Shelf.empty 10,[]) from ⟨trivial,[],[],rfl,.refl _⟩) rfl rfl

theorem page_asked : ∃ s, (logged shelves).alloc 128 maxAlign onShelf = some (success 8589934592,s,pageLog) := ⟨_,rfl⟩

theorem page_pushed {size alignment length : Int} (positive : 0 < size) (power : isPowerOfTwo alignment = true)
    (room : bump lentForty.currentPoint lentForty.limit size alignment = none)
    (page : lentForty.pageSize size alignment = length) (bytes : pageBytes length = 128)
    (again : bump (lentForty.pushPage ⟨8589934592,length⟩).currentPoint (lentForty.pushPage ⟨8589934592,length⟩).limit size
      alignment = some (aligned,next)) :
    ∃ s, allocate (logged shelves) size alignment lentForty onShelf =
      .ok (success aligned,(lentForty.pushPage ⟨8589934592,length⟩).occupy next,s,pageLog) := by
  obtain ⟨s,asked⟩ := page_asked
  rcases asked_cases (by decide : lentForty.data ≠ 0) positive power (fromCurrentPage_none room) rfl rfl
    (logged shelves) onShelf with ⟨trapped,_⟩ | ⟨r,t,called,_,granted⟩
  · rw [page,bytes,asked] at trapped
    cases trapped
  · rw [page] at granted
    rw [page,bytes,asked] at called
    cases called
    exact ⟨s,granted (by decide : 8589934592 ≠ 0) _ _ (fromCurrentPage_some again)⟩

-- 96 bytes and an alignment of 16 make a page of 112 bytes and its header.
theorem rewind_restores_page : ∃ (e : Config (Shelf × List Entry)) (t' : Shelf × List Entry),
    e.state.overflowPages = [⟨8589934592,112⟩] ∧
      rewind (logged shelves) lentForty.mark e.state e.backing =
        .ok ({lentForty with highWaterMark := e.state.highWaterMark},t') ∧
      t'.2 = .returned ⟨8589934592,128⟩ :: e.backing.2 := by
  have room : bump lentForty.currentPoint lentForty.limit 96 16 = none := by decide
  have page : lentForty.pageSize 96 16 = 112 := by decide
  have again : bump (lentForty.pushPage ⟨8589934592,112⟩).currentPoint (lentForty.pushPage ⟨8589934592,112⟩).limit 96 16 =
      some (8589934608,8589934704) := by decide
  obtain ⟨s,called⟩ := page_pushed (by decide : (0 : Int) < 96) (by decide : isPowerOfTwo 16 = true) room page (by decide) again
  have careful : Careful (ofContract shelves_contract shelves_free) ⟨lentForty,onShelf,[]⟩
      (.allocate ⟨96,by decide⟩ ⟨16,by decide⟩) := by
    refine ⟨fun _ _ => ⟨?_,fun _ _ r t asked notNull next lands => ?_⟩,fun _ _ _ _ => ?_⟩
    · rintro ⟨next,wraps⟩
      have fits : bump lentForty.currentPoint lentForty.limit 96 16 = some (0,next) := wraps
      rw [room] at fits
      cases fits
    · obtain ⟨s,first⟩ := page_asked
      have asked' : (logged shelves).alloc (pageBytes (lentForty.pageSize 96 16)) maxAlign onShelf = some (r,t) := asked
      rw [page,show pageBytes 112 = 128 by decide,first] at asked'
      cases asked'
      rw [pushed_room] at again
      have lands' : bump (add64 8589934592 16) (add64 (add64 8589934592 16) (toU64 (lentForty.pageSize 96 16))) 96 16 =
        some (0,next) := lands
      rw [page,again] at lands'
      cases lands'
    · show (16 : Int) ∣ lentForty.pageSize 96 16
      rw [page]
      decide
  have step := Step.allocated (c:=⟨lentForty,onShelf,[]⟩) (show S64 from ⟨96,by decide⟩) ⟨16,by decide⟩
    (show allocate (client (ofContract shelves_contract shelves_free)).allocator 96 16 lentForty onShelf = _ from called)
  obtain ⟨added,t',split,back,log,_⟩ := rewind_restores (ofContract shelves_contract shelves_free) (.made lentForty_made)
    (.step .stay careful step)
  have pages : added = [⟨8589934592,112⟩] := by
    have all : [⟨8589934592,112⟩] = added ++ [] := split
    rw [List.append_nil] at all
    exact all.symm
  refine ⟨_,t',rfl,back,?_⟩
  rw [log,pages]
  rfl

-- A page of 104 bytes and its header: 128 bytes are asked for and 120 are freed.
theorem mismatched_page_kept : ¬ ∀ (c e : Config (Shelf × List Entry)),
    Reached (client (ofContract shelves_contract shelves_free)) (fun _ _ => True) c →
    Nested (client (ofContract shelves_contract shelves_free)) (fun _ _ => True) c e →
    ∃ added t', e.state.overflowPages = added ++ c.state.overflowPages ∧
      rewind (logged shelves) c.state.mark e.state e.backing =
        .ok ({c.state with highWaterMark := e.state.highWaterMark},t') ∧
      t'.2 = (added.reverse.map fun page => .returned (pageBlock page)) ++ e.backing.2 ∧
      InOrder (ofContract shelves_contract shelves_free) t' := by
  intro every
  have again : bump (lentForty.pushPage ⟨8589934592,104⟩).currentPoint (lentForty.pushPage ⟨8589934592,104⟩).limit 100 4 =
      some (8589934608,8589934708) := by decide
  obtain ⟨s,called⟩ := page_pushed (by decide : (0 : Int) < 100) (by decide : isPowerOfTwo 4 = true) (by decide) (by decide)
    (by decide) again
  have step := Step.allocated (c:=⟨lentForty,onShelf,[]⟩) (show S64 from ⟨100,by decide⟩) ⟨4,by decide⟩
    (show allocate (client (ofContract shelves_contract shelves_free)).allocator 100 4 lentForty onShelf = _ from called)
  obtain ⟨added,t',split,_,log,order⟩ := every _ _ (.made lentForty_made) (.step .stay trivial step)
  obtain ⟨_,blocks,_,books,_⟩ := order
  have pages : added = [⟨8589934592,104⟩] := by
    have all : [⟨8589934592,104⟩] = added ++ [] := split
    rw [List.append_nil] at all
    exact all.symm
  rw [log,pages] at books
  have lost : ledger (.returned ⟨8589934592,120⟩ :: pageLog) = none := by decide
  have found : ledger (.returned ⟨8589934592,120⟩ :: pageLog) = some blocks := books
  rw [lost] at found
  cases found

end Pages

end TemporaryState
end BumpAllocators
