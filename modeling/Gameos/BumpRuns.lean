import Gameos.TemporaryFailures
import Gameos.AllocatorLending

-- Runs of a temporary allocator over memory that is lent to it, with the pieces that
-- its callers hold.
namespace BumpAllocators
open MachineWords AllocatorTypes AllocatorCalls AllocatorContract AllocatorLending

structure Piece extends Block where
  alignment : Int
deriving DecidableEq, Repr

def Within (a b : Block) : Prop := b.pointer ≤ a.pointer ∧ a.pointer + a.size ≤ b.pointer + b.size

theorem Within.refl (a : Block) : Within a a := ⟨Nat.le_refl _,Int.le_refl _⟩

theorem Within.apart (within : Within a b) (apart : Apart b c) : Apart a c := by
  unfold Within at within
  unfold Apart at *
  omega

theorem Within.trans (first : Within a b) (second : Within b c) : Within a c := by
  unfold Within at *
  omega

theorem apart_symm (apart : Apart a b) : Apart b a := apart.symm

-- What the callers hold behind a call: null is no piece, and an error leaves the old one.
def gained (r : AllocatorResult) (size alignment : Int) (pieces : List Piece) : List Piece :=
  if r.memory = 0 then pieces else ⟨⟨r.memory,size⟩,alignment⟩ :: pieces

def changed (r : AllocatorResult) (size alignment : Int) (piece : Piece) (pieces : List Piece) : List Piece :=
  if r.error ≠ .none then pieces else gained r size alignment (pieces.erase piece)

inductive Call where
  | allocate (size alignment : S64)
  | resize (size alignment oldSize : S64) (oldMemory : Nat)
  | elsewhere

-- A bump that does not wrap to null.
theorem bump_exact (size alignment : S64) (power : isPowerOfTwo alignment.val = true) (positive : 0 < size.val)
    (point : current < 18446744073709551616) (room : bump current limit size.val alignment.val = some (aligned,next))
    (notNull : aligned ≠ 0) :
    current ≤ aligned ∧ alignment.val ∣ aligned ∧ (next : Int) = aligned + size.val ∧ next ≤ limit := by
  obtain ⟨k,exact_power⟩ := isPowerOfTwo_exact.mp power
  have high := alignment.2.2
  have large := size.2.2
  have exponent : k < 63 := by
    by_contra wide
    have past : (2:Nat)^63 ≤ 2^k := Nat.pow_le_pow_right (by decide) (by omega)
    omega
  have small : (2:Nat)^k ≤ 2^62 := Nat.pow_le_pow_right (by decide) (by omega)
  have step : toU64 alignment.val = 2^k := by
    rw [exact_power]
    exact toU64_nat _ (by omega)
  have bytes : toU64 size.val = size.val.toNat := by
    unfold toU64
    omega
  unfold bump at room
  rw [step,bytes] at room
  dsimp only at room
  split at room
  · cases room
  · rename_i fits
    injection room with pair
    injection pair with same last
    have unwrapped : current + 2^k ≤ 2^64 := by
      by_contra wraps
      rw [alignUp_wraps current k point (by omega) (by omega)] at same
      exact notNull same.symm
    obtain ⟨above,_,divides⟩ := alignUp_bounds current k (by omega) unwrapped
    rw [same] at above divides last fits
    have exact_sum : add64 aligned size.val.toNat = aligned + size.val.toNat := add64_checked (by omega) (by omega)
    refine ⟨above,?_,by omega,by omega⟩
    rw [exact_power]
    exact Int.natCast_dvd_natCast.mpr divides

theorem grow_exact (oldSize size : S64) (grown : grow current limit oldMemory oldSize.val size.val = some next)
    (held : 0 < oldSize.val) (inside : (oldMemory : Int) + oldSize.val < 18446744073709551616)
    (larger : oldSize.val < size.val) :
    (oldMemory : Int) + oldSize.val = current ∧ (next : Int) = oldMemory + size.val ∧ next ≤ limit := by
  have large := size.2.2
  have bytes : toU64 size.val = size.val.toNat ∧ toU64 oldSize.val = oldSize.val.toNat := by
    unfold toU64
    omega
  unfold grow at grown
  rw [bytes.1,bytes.2,add64_of_lt (by omega)] at grown
  split at grown
  · rename_i last
    dsimp only at grown
    split at grown
    · rename_i fits
      injection grown with same
      have exact_sum : add64 oldMemory size.val.toNat = oldMemory + size.val.toNat := add64_checked (by omega) (by omega)
      omega
    · cases grown
  · cases grown

namespace TemporaryState

structure Config (σ : Type) where
  state : TemporaryState
  backing : σ
  pieces : List Piece

def areas (state : TemporaryState) : List Block :=
  state.overflowPages.map (fun page => ⟨page.data,page.size⟩) ++ [⟨state.originalData,state.originalSize⟩]

def headers (state : TemporaryState) : List Block :=
  state.overflowPages.map fun page => ⟨page.address,overflowPageHeaderSize⟩

-- The pages with their headers.
def spans (state : TemporaryState) : List Block :=
  state.overflowPages.map (fun page => ⟨page.address,overflowPageHeaderSize + page.size⟩) ++
    [⟨state.originalData,state.originalSize⟩]

-- What it was lent, by the sizes it asked for.
def held (state : TemporaryState) : List Block :=
  state.overflowPages.map (fun page => ⟨page.address,pageBytes page.size⟩) ++
    if state.backed then [⟨state.originalData,state.originalSize⟩] else []

section Runs
variable (lender : Lender σ)

inductive Step : Config σ → Call → Config σ → Prop where
  | allocated (size alignment : S64) : allocate lender.allocator size.val alignment.val c.state c.backing = .ok (r,state,s) →
      Step c (.allocate size alignment) ⟨state,s,gained r size.val alignment.val c.pieces⟩
  | resizedNull (size alignment oldSize : S64) : resize lender.allocator size.val alignment.val oldSize.val 0 c.state c.backing = .ok (r,state,s) →
      Step c (.resize size alignment oldSize 0) ⟨state,s,gained r size.val alignment.val c.pieces⟩
  | resized (size alignment oldSize : S64) : piece ∈ c.pieces → piece.size = oldSize.val →
      resize lender.allocator size.val alignment.val oldSize.val piece.pointer c.state c.backing = .ok (r,state,s) →
      Step c (.resize size alignment oldSize piece.pointer) ⟨state,s,changed r size.val alignment.val piece c.pieces⟩
  -- other calls on the backing allocator
  | elsewhere : lender.valid s → (lender.live s).Perm (lender.live c.backing) →
      Step c .elsewhere ⟨c.state,s,c.pieces⟩

-- Calls, marks and the rewinds to them, each before the marks that are older. What is held
-- behind a rewind is what was held at the mark, and has the same place and size.
inductive Nested (admits : Config σ → Call → Prop) : Config σ → Config σ → Prop where
  | stay : Nested admits c c
  | step : Nested admits c d → admits d call → Step lender d call e → Nested admits c e
  | rewind : Nested admits c d → Nested admits d e →
      TemporaryState.rewind lender.allocator d.state.mark e.state e.backing = .ok (state,s) →
      Nested admits c ⟨state,s,d.pieces.filter (· ∈ e.pieces)⟩

-- A buffer of the caller ends below the top of the address space.
inductive Made : Config σ → Prop where
  | overMemory (memory : Nat) (size : S64) : (memory : Int) + size.val < 18446744073709551616 →
      lender.valid s → lender.live s = [] → overMemory memory size.val = .ok state → Made ⟨state,s,[]⟩
  | backedBy (size : S64) : lender.valid before → lender.live before = [] →
      backedBy lender.allocator size.val before = .ok (state,s) → Made ⟨state,s,[]⟩

inductive Reached (admits : Config σ → Call → Prop) : Config σ → Prop where
  | made : Made lender c → Reached admits c
  | run : Reached admits c → Nested lender admits c d → Reached admits d
  | reset : Reached admits c → TemporaryState.reset lender.allocator c.state c.backing = .ok (state,s) →
      Reached admits ⟨state,s,[]⟩

end Runs

-- Its memory is what it was lent, or the buffer of the caller.
structure Owned (lender : Lender σ) (state : TemporaryState) (s : σ) : Prop where
  valid : lender.valid s
  books : (lender.live s).Perm state.held
  pages : state.backed = false → state.overflowPages = []
  sizes : ∀ page ∈ state.overflowPages, 0 ≤ page.size ∧ 16 + page.size ≤ pageBytes page.size ∧
    page.address + pageBytes page.size < 18446744073709551616
  original : state.originalData ≠ 0 ∧ 0 < state.originalSize ∧ state.originalSize < 9223372036854775808 ∧
    state.originalData + state.originalSize < 18446744073709551616
  current : (state.data,state.size) = state.currentPage state.overflowPages

-- Where the pieces lie, and where the next one will.
structure Spread (state : TemporaryState) (pieces : List Piece) : Prop where
  placed : ∀ piece ∈ pieces, 0 < piece.size ∧ piece.alignment ∣ piece.pointer ∧
    ∃ area ∈ state.areas, Within piece.toBlock area
  apart : pieces.Pairwise fun a b => Apart a.toBlock b.toBlock

structure Laid (state : TemporaryState) (pieces : List Piece) : Prop extends Spread state pieces where
  occupied : 0 ≤ state.currentPageBytesOccupied ∧ state.currentPageBytesOccupied ≤ state.size
  behind : ∀ piece ∈ pieces, piece.pointer + piece.size ≤ state.data + state.currentPageBytesOccupied ∨
    Apart piece.toBlock ⟨state.data,state.size⟩

section Places
variable {lender : Lender σ} {state : TemporaryState} {s : σ} {pieces : List Piece}

theorem page_data {page : OverflowPage} (low : 0 ≤ page.size) (fits : 16 + page.size ≤ bytes)
    (inside : page.address + bytes < 18446744073709551616) : page.data = page.address + 16 := by
  have header : toU64 overflowPageHeaderSize = 16 := by decide
  unfold OverflowPage.data
  rw [header]
  exact add64_of_lt (by omega)

theorem Owned.page_data (owned : Owned lender state s) (here : page ∈ state.overflowPages) :
    page.data = page.address + 16 := by
  obtain ⟨low,fits,inside⟩ := owned.sizes page here
  exact TemporaryState.page_data low fits inside

theorem Owned.apart (owned : Owned lender state s) : state.spans.Pairwise Apart := by
  unfold spans
  cases backed : state.backed with
  | false =>
      rw [owned.pages backed]
      exact List.pairwise_singleton _ _
  | true =>
      have lent := (owned.books.pairwise_iff fun either => Or.symm either).mp (lender.apart owned.valid)
      unfold held at lent
      rw [backed,if_pos rfl,List.pairwise_append,List.pairwise_map] at lent
      obtain ⟨pages,_,across⟩ := lent
      have shrinks : ∀ page ∈ state.overflowPages,
          Within ⟨page.address,overflowPageHeaderSize + page.size⟩ ⟨page.address,pageBytes page.size⟩ := by
        intro page here
        have fits := (owned.sizes page here).2.1
        refine ⟨Nat.le_refl _,?_⟩
        unfold overflowPageHeaderSize
        dsimp only
        omega
      rw [List.pairwise_append,List.pairwise_map]
      refine ⟨pages.imp_of_mem fun first second apart => ?_,List.pairwise_singleton _ _,?_⟩
      · exact (shrinks _ first).apart (apart_symm ((shrinks _ second).apart (apart_symm apart)))
      · intro a here b there
        obtain ⟨page,among,rfl⟩ := List.mem_map.mp here
        exact (shrinks page among).apart (across _ (List.mem_map_of_mem among) b there)

-- Whatever lies in an area lies in its span, and not in the header before it.
theorem Owned.area_span (owned : Owned lender state s) (here : area ∈ state.areas) :
    ∃ span ∈ state.spans, Within area span := by
  rcases List.mem_append.mp here with paged | original
  · obtain ⟨page,among,rfl⟩ := List.mem_map.mp paged
    refine ⟨_,List.mem_append_left _ (List.mem_map_of_mem among),?_⟩
    have data := owned.page_data among
    unfold Within overflowPageHeaderSize
    dsimp only
    omega
  · exact ⟨area,List.mem_append_right _ original,.refl _⟩

theorem Owned.area_inside (owned : Owned lender state s) (here : area ∈ state.areas) :
    area.pointer ≠ 0 ∧ area.pointer + area.size < 18446744073709551616 := by
  rcases List.mem_append.mp here with paged | original
  · obtain ⟨page,among,rfl⟩ := List.mem_map.mp paged
    have data := owned.page_data among
    have sizes := owned.sizes page among
    dsimp only
    omega
  · rw [List.mem_singleton.mp original]
    exact ⟨owned.original.1,owned.original.2.2.2⟩

theorem pageBytes_small (size : Int) : pageBytes size < 9223372036854775808 := (toS64_range _).2

theorem Owned.current_area (owned : Owned lender state s) :
    ⟨state.data,state.size⟩ ∈ state.areas ∧ 0 ≤ state.size ∧ state.size < 9223372036854775808 := by
  have current := owned.current
  have original := owned.original
  unfold areas
  cases pages : state.overflowPages with
  | nil =>
      rw [pages] at current
      injection current with data size
      rw [data,size]
      exact ⟨List.mem_append_right _ List.mem_cons_self,by omega,original.2.2.1⟩
  | cons page rest =>
      have sizes := owned.sizes page (by rw [pages]; exact List.mem_cons_self)
      have small := pageBytes_small page.size
      rw [pages] at current
      injection current with data size
      rw [data,size]
      exact ⟨List.mem_append_left _ (List.mem_map_of_mem List.mem_cons_self),sizes.1,by omega⟩

-- A piece that ends within the current page lies in it: the other pages end before its
-- header or begin behind it.
theorem Owned.ends_here (owned : Owned lender state s) (here : area ∈ state.areas) (within : Within piece area)
    (positive : 0 < piece.size) (low : state.data ≤ piece.pointer + piece.size)
    (high : piece.pointer + piece.size ≤ state.data + state.size) : area = ⟨state.data,state.size⟩ := by
  have current := owned.current
  cases pages : state.overflowPages with
  | nil =>
      rw [areas,pages] at here
      rw [pages] at current
      injection current with data size
      rw [data,size]
      exact List.mem_singleton.mp here
  | cons page rest =>
      have among : page ∈ state.overflowPages := by
        rw [pages]
        exact List.mem_cons_self
      have place := owned.page_data among
      rw [pages] at current
      injection current with data size
      by_cases same : area = ⟨page.data,page.size⟩
      · rw [same,data,size]
      obtain ⟨span,listed,inside⟩ : ∃ span ∈ ({state with overflowPages := rest} : TemporaryState).spans, Within area span := by
        have rest_owned : ∀ other ∈ rest, other.data = other.address + 16 := fun other later =>
          owned.page_data (by rw [pages]; exact List.mem_cons_of_mem _ later)
        rw [areas,pages] at here
        rcases List.mem_cons.mp here with first | here
        · exact absurd first same
        · rcases List.mem_append.mp here with paged | original
          · obtain ⟨other,later,rfl⟩ := List.mem_map.mp paged
            refine ⟨_,List.mem_append_left _ (List.mem_map_of_mem later),?_⟩
            have place' := rest_owned other later
            unfold Within overflowPageHeaderSize
            dsimp only
            omega
          · exact ⟨area,List.mem_append_right _ original,.refl _⟩
      have apart := owned.apart
      rw [spans,pages,List.map_cons,List.cons_append,List.pairwise_cons] at apart
      have away := apart.1 span listed
      have lies := within.trans inside
      unfold Apart overflowPageHeaderSize at away
      unfold Within at lies
      dsimp only at away
      omega

end Places

section Outcomes
variable {allocator : Allocator σ} {state : TemporaryState} {s : σ} {size alignment : Int}

theorem occupy_fields (state : TemporaryState) (next : Nat) :
    (state.occupy next).originalData = state.originalData ∧ (state.occupy next).originalSize = state.originalSize ∧
      (state.occupy next).data = state.data ∧ (state.occupy next).size = state.size ∧
      (state.occupy next).overflowPages = state.overflowPages ∧ (state.occupy next).backed = state.backed ∧
      (state.occupy next).currentPageBytesOccupied = toS64 (sub64 next state.data) := by
  unfold occupy updateHighWaterMark
  split <;> exact ⟨rfl,rfl,rfl,rfl,rfl,rfl,rfl⟩

theorem extend_fields (state : TemporaryState) (oldSize size : Int) (next : Nat) :
    (state.extend oldSize size next).originalData = state.originalData ∧
      (state.extend oldSize size next).originalSize = state.originalSize ∧
      (state.extend oldSize size next).data = state.data ∧ (state.extend oldSize size next).size = state.size ∧
      (state.extend oldSize size next).overflowPages = state.overflowPages ∧
      (state.extend oldSize size next).backed = state.backed ∧
      (state.extend oldSize size next).currentPageBytesOccupied = toS64 (sub64 next state.data) := by
  unfold extend updateHighWaterMark
  split <;> exact ⟨rfl,rfl,rfl,rfl,rfl,rfl,rfl⟩

-- The current page behind an attempt that gave no memory.
inductive Tried (size alignment : Int) (state : TemporaryState) : TemporaryState → Prop where
  | full : bump state.currentPoint state.limit size alignment = none → Tried size alignment state state
  | wrapped : bump state.currentPoint state.limit size alignment = some (0,next) →
      Tried size alignment state (state.occupy next)

-- What ALLOCATE can do.
inductive Allocated (allocator : Allocator σ) (size alignment : Int) (state : TemporaryState) (s : σ) :
    AllocatorResult → TemporaryState → σ → Prop where
  | unchanged : r.memory = 0 → Allocated allocator size alignment state s r state s
  | here : 0 < size → isPowerOfTwo alignment = true → bump state.currentPoint state.limit size alignment = some (aligned,next) →
      (aligned ≠ 0 ∨ state.backed = false) → Allocated allocator size alignment state s (success aligned) (state.occupy next) s
  | refused : 0 < size → isPowerOfTwo alignment = true → state.backed = true → Tried size alignment state after →
      allocator.alloc (pageBytes (state.pageSize size alignment)) maxAlign s = some (page,s') → page.memory = 0 →
      Allocated allocator size alignment state s page after s'
  | unused : 0 < size → isPowerOfTwo alignment = true → state.backed = true → Tried size alignment state after →
      allocator.alloc (pageBytes (state.pageSize size alignment)) maxAlign s = some (page,s') → page.memory ≠ 0 →
      Allocated allocator size alignment state s (failure .outOfMemory)
        (after.pushPage ⟨page.memory,state.pageSize size alignment⟩) s'
  | pushed : 0 < size → isPowerOfTwo alignment = true → state.backed = true → Tried size alignment state after →
      allocator.alloc (pageBytes (state.pageSize size alignment)) maxAlign s = some (page,s') → page.memory ≠ 0 →
      bump (after.pushPage ⟨page.memory,state.pageSize size alignment⟩).currentPoint
        (after.pushPage ⟨page.memory,state.pageSize size alignment⟩).limit size alignment = some (aligned,next) →
      Allocated allocator size alignment state s (success aligned)
        ((after.pushPage ⟨page.memory,state.pageSize size alignment⟩).occupy next) s'

theorem tried_cases (first : state.allocateFromCurrentPage size alignment = (r,after)) (null : r.memory = 0) :
    Tried size alignment state after := by
  cases room : bump state.currentPoint state.limit size alignment with
  | none =>
      rw [fromCurrentPage_none room] at first
      cases first
      exact .full room
  | some result =>
      obtain ⟨aligned,next⟩ := result
      rw [fromCurrentPage_some room] at first
      cases first
      change aligned = 0 at null
      subst null
      exact .wrapped room

theorem Tried.fields (tried : Tried size alignment state after) :
    after.originalData = state.originalData ∧ after.originalSize = state.originalSize ∧ after.data = state.data ∧
      after.size = state.size ∧ after.overflowPages = state.overflowPages ∧ after.backed = state.backed := by
  cases tried with
  | full => exact ⟨rfl,rfl,rfl,rfl,rfl,rfl⟩
  | wrapped =>
      obtain ⟨a,b,c,d,e,f,_⟩ := occupy_fields state _
      exact ⟨a,b,c,d,e,f⟩

theorem Tried.pageSize (tried : Tried size alignment state after) (wanted step : Int) :
    after.pageSize wanted step = state.pageSize wanted step := by
  unfold TemporaryState.pageSize
  rw [tried.fields.2.1]

theorem allocate_cases (called : allocate allocator size alignment state s = .ok (r,after,s')) :
    Allocated allocator size alignment state s r after s' := by
  by_cases some_data : state.data = 0
  · have ends : allocate allocator size alignment state s = .ok (failure .useOfUninitializedAllocator,state,s) := by
      unfold allocate
      exact if_pos some_data
    rw [ends] at called
    cases called
    exact .unchanged rfl
  by_cases invalid : size < 0 ∨ isPowerOfTwo alignment = false
  · have ends : allocate allocator size alignment state s = .ok (failure .invalidArgument,state,s) := by
      unfold allocate
      exact (if_neg some_data).trans (if_pos invalid)
    rw [ends] at called
    cases called
    exact .unchanged rfl
  by_cases empty : size = 0
  · have ends : allocate allocator size alignment state s = .ok (success 0,state,s) := by
      unfold allocate
      exact (if_neg some_data).trans ((if_neg invalid).trans (if_pos empty))
    rw [ends] at called
    cases called
    exact .unchanged rfl
  rw [not_or,Bool.not_eq_false] at invalid
  obtain ⟨low,power⟩ := invalid
  have positive : 0 < size := by omega
  cases first : state.allocateFromCurrentPage size alignment with
  | mk allocation occupied =>
  by_cases ends : allocation.memory ≠ 0 ∨ occupied.backed = false
  · rw [allocate_first some_data positive power first ends allocator] at called
    cases called
    cases room : bump state.currentPoint state.limit size alignment with
    | none =>
        rw [fromCurrentPage_none room] at first
        cases first
        exact .unchanged rfl
    | some result =>
        obtain ⟨aligned,next⟩ := result
        rw [fromCurrentPage_some room] at first
        cases first
        rw [(occupy_fields state next).2.2.2.2.2.1] at ends
        exact .here positive power room ends
  · rw [not_or,not_not,Bool.not_eq_false] at ends
    obtain ⟨null,backed⟩ := ends
    have tried := tried_cases first null
    rw [tried.fields.2.2.2.2.2] at backed
    rcases asked_cases some_data positive power first null (tried.fields.2.2.2.2.2.trans backed) allocator s with
      ⟨_,trapped⟩ | ⟨page,left,asked,denied,granted⟩
    · rw [trapped] at called
      cases called
    · rw [tried.pageSize] at asked granted
      by_cases refused : page.memory = 0
      · rw [denied refused] at called
        cases called
        exact .refused positive power backed tried asked refused
      · cases room : bump (occupied.pushPage ⟨page.memory,state.pageSize size alignment⟩).currentPoint
            (occupied.pushPage ⟨page.memory,state.pageSize size alignment⟩).limit size alignment with
        | none =>
            rw [granted refused _ _ (fromCurrentPage_none room)] at called
            cases called
            exact .unused positive power backed tried asked refused
        | some result =>
            obtain ⟨aligned,next⟩ := result
            rw [granted refused _ _ (fromCurrentPage_some room)] at called
            cases called
            exact .pushed positive power backed tried asked refused room

-- What RESIZE can do.
inductive Resized (allocator : Allocator σ) (size alignment oldSize : Int) (oldMemory : Nat) (state : TemporaryState) (s : σ) :
    AllocatorResult → TemporaryState → σ → Prop where
  | failed : r.error ≠ .none → r.memory = 0 → Resized allocator size alignment oldSize oldMemory state s r state s
  | shrunk : size ≤ oldSize ∨ size = 0 → 0 ≤ size → (oldMemory = 0 ∨ oldMemory % toU64 alignment = 0) →
      isPowerOfTwo alignment = true →
      Resized allocator size alignment oldSize oldMemory state s (success (if size = 0 then 0 else oldMemory)) state s
  | grown : oldMemory ≠ 0 → oldSize < size → oldMemory % toU64 alignment = 0 → isPowerOfTwo alignment = true →
      grow state.currentPoint state.limit oldMemory oldSize size = some next →
      Resized allocator size alignment oldSize oldMemory state s (success oldMemory) (state.extend oldSize size next) s
  | allocated : oldMemory = 0 → oldSize < size → Allocated allocator size alignment state s r after s' →
      Resized allocator size alignment oldSize oldMemory state s r after s'

theorem resize_cases (called : resize allocator size alignment oldSize oldMemory state s = .ok (r,after,s')) :
    Resized allocator size alignment oldSize oldMemory state s r after s' := by
  by_cases invalid : size < 0 ∨ isPowerOfTwo alignment = false
  · unfold resize at called
    rw [if_pos invalid] at called
    cases called
    exact .failed (by decide) rfl
  have valid := invalid
  rw [not_or,Bool.not_eq_false] at valid
  by_cases misaligned : oldMemory ≠ 0 ∧ oldMemory % toU64 alignment ≠ 0
  · unfold resize at called
    rw [if_neg invalid,if_pos misaligned] at called
    cases called
    exact .failed (by decide) rfl
  have aligned : oldMemory = 0 ∨ oldMemory % toU64 alignment = 0 := by
    rw [not_and_or,not_not,not_not] at misaligned
    exact misaligned
  by_cases shrinks : size = 0 ∨ size ≤ oldSize
  · unfold resize at called
    rw [if_neg invalid,if_neg misaligned,if_pos shrinks] at called
    cases called
    exact .shrunk shrinks.symm (by omega) aligned valid.2
  by_cases null : oldMemory = 0
  · subst null
    rw [resize_null size alignment oldSize allocator s invalid shrinks] at called
    exact .allocated rfl (by omega) (allocate_cases called)
  · cases grown : grow state.currentPoint state.limit oldMemory oldSize size with
    | some next =>
        unfold resize at called
        rw [if_neg invalid,if_neg misaligned,if_neg shrinks,grown] at called
        cases called
        exact .grown null (by omega) (aligned.resolve_left null) valid.2 grown
    | none =>
        unfold resize at called
        rw [if_neg invalid,if_neg misaligned,if_neg shrinks,grown] at called
        have ends := (if_neg null).symm.trans called
        cases ends
        exact .failed (by decide) rfl

end Outcomes

section Ownership
variable {lender : Lender σ} {state : TemporaryState} {s : σ}

theorem Owned.same (owned : Owned lender state s) (fields : after.originalData = state.originalData ∧
    after.originalSize = state.originalSize ∧ after.data = state.data ∧ after.size = state.size ∧
    after.overflowPages = state.overflowPages ∧ after.backed = state.backed) : Owned lender after s := by
  obtain ⟨data,size,point,length,pages,backed⟩ := fields
  refine ⟨owned.valid,?_,?_,?_,?_,?_⟩
  · rw [held,pages,backed,data,size]
    exact owned.books
  · rw [pages,backed]
    exact owned.pages
  · rw [pages]
    exact owned.sizes
  · rw [data,size]
    exact owned.original
  · rw [point,length,pages,owned.current]
    unfold currentPage
    rw [data,size]

theorem Owned.elsewhere (owned : Owned lender state s) (valid : lender.valid s') (same : (lender.live s').Perm (lender.live s)) :
    Owned lender state s' :=
  ⟨valid,same.trans owned.books,owned.pages,owned.sizes,owned.original,owned.current⟩

theorem lent (valid : lender.valid s) (asked : lender.allocator.alloc bytes alignment s = some (r,s')) :
    lender.valid s' ∧ Granted bytes alignment (lender.live s) r (lender.live s') := by
  obtain ⟨r',s'',called,valid',granted⟩ := lender.lends valid bytes alignment
  rw [asked] at called
  cases called
  exact ⟨valid',granted⟩

theorem Owned.denied (owned : Owned lender state s) (asked : lender.allocator.alloc bytes alignment s = some (r,s'))
    (null : r.memory = 0) : Owned lender state s' := by
  obtain ⟨valid,granted⟩ := lent owned.valid asked
  rcases granted with ⟨_,_,same⟩ | ⟨_,fresh,_⟩
  · exact owned.elsewhere valid same
  · exact absurd null fresh.notNull

theorem Owned.pushed (owned : Owned lender state s) (backed : state.backed = true) (low : 0 ≤ length)
    (high : length < 9223372036854775808)
    (asked : lender.allocator.alloc (pageBytes length) maxAlign s = some (page,s')) (notNull : page.memory ≠ 0) :
    Owned lender (state.pushPage ⟨page.memory,length⟩) s' := by
  obtain ⟨valid,granted⟩ := lent owned.valid asked
  rcases granted with ⟨null,_⟩ | ⟨_,fresh,more⟩
  · exact absurd null notNull
  · have positive : 0 < pageBytes length := fresh.positive
    have fits := pageBytes_fits length low high (Int.le_of_lt positive)
    have inside : page.memory + pageBytes length < 2^64 := fresh.inside
    refine ⟨valid,more.trans (owned.books.cons _),fun unbacked => ?_,?_,owned.original,rfl⟩
    · have unbacked' : state.backed = false := unbacked
      rw [backed] at unbacked'
      cases unbacked'
    · intro other here
      rcases List.mem_cons.mp here with rfl | here
      · dsimp only
        omega
      · exact owned.sizes other here

theorem Owned.page_range (owned : Owned lender state s) (size alignment : S64) (positive : 0 < size.val)
    (power : isPowerOfTwo alignment.val = true) :
    0 ≤ state.pageSize size.val alignment.val ∧ state.pageSize size.val alignment.val < 9223372036854775808 := by
  have some_alignment := power_positive power
  obtain ⟨low,high,_⟩ := pageSize_cases state owned.original.2.2.1 positive size.2.2 some_alignment alignment.2.2
  exact ⟨low,high⟩

theorem Allocated.owned {size alignment : S64}
    (done : Allocated lender.allocator size.val alignment.val state s r after s') (owned : Owned lender state s) :
    Owned lender after s' := by
  cases done with
  | unchanged => exact owned
  | here _ _ room =>
      obtain ⟨a,b,c,d,e,f,_⟩ := occupy_fields state _
      exact owned.same ⟨a,b,c,d,e,f⟩
  | refused _ _ _ tried asked null => exact (owned.same tried.fields).denied asked null
  | unused positive power backed tried asked notNull =>
      obtain ⟨low,high⟩ := owned.page_range size alignment positive power
      exact (owned.same tried.fields).pushed (tried.fields.2.2.2.2.2.trans backed) low high asked notNull
  | pushed positive power backed tried asked notNull room =>
      obtain ⟨low,high⟩ := owned.page_range size alignment positive power
      have grown := (owned.same tried.fields).pushed (tried.fields.2.2.2.2.2.trans backed) low high asked notNull
      obtain ⟨a,b,c,d,e,f,_⟩ := occupy_fields _ _
      exact grown.same ⟨a,b,c,d,e,f⟩

theorem Resized.owned {size alignment oldSize : S64}
    (done : Resized lender.allocator size.val alignment.val oldSize.val oldMemory state s r after s')
    (owned : Owned lender state s) : Owned lender after s' := by
  cases done with
  | failed => exact owned
  | shrunk => exact owned
  | grown =>
      obtain ⟨a,b,c,d,e,f,_⟩ := extend_fields state _ _ _
      exact owned.same ⟨a,b,c,d,e,f⟩
  | allocated _ _ done => exact done.owned owned

theorem Step.owned (step : Step lender c call d) (owned : Owned lender c.state c.backing) :
    Owned lender d.state d.backing := by
  cases step with
  | allocated size alignment called => exact (allocate_cases called).owned owned
  | resizedNull size alignment oldSize called => exact (resize_cases called).owned owned
  | resized size alignment oldSize _ _ called => exact (resize_cases called).owned owned
  | elsewhere valid same => exact owned.elsewhere valid same

-- What the constructors leave.
theorem Made.starts (made : Made lender c) :
    Owned lender c.state c.backing ∧ c.pieces = [] ∧ c.state.currentPageBytesOccupied = 0 ∧ c.state.overflowPages = [] := by
  cases made with
  | overMemory memory size inside valid nothing called =>
      unfold TemporaryState.overMemory at called
      obtain ⟨notNull,called⟩ := demand_passes called
      obtain ⟨positive,called⟩ := demand_passes called
      cases called
      have some_memory : memory ≠ 0 := by simpa using notNull
      have some_size : 0 < size.val := by simpa using positive
      have bound := size.2.2
      refine ⟨⟨valid,?_,fun _ => rfl,(fun _ here => nomatch here),?_,rfl⟩,rfl,rfl,rfl⟩
      · rw [nothing]
        exact .refl _
      · dsimp only
        omega
  | backedBy size valid nothing called =>
      rename_i before state s
      unfold TemporaryState.backedBy at called
      obtain ⟨positive,called⟩ := demand_passes called
      have some_size : 0 < size.val := by simpa using positive
      obtain ⟨r,s',asked,valid',granted⟩ := lender.lends valid size.val maxAlign
      have run : underneath (lender.allocator.alloc size.val maxAlign before) = .ok (r,s') := by
        rw [asked]
        rfl
      rw [run,ok_bind] at called
      obtain ⟨notNull,called⟩ := demand_passes called
      obtain ⟨_,called⟩ := demand_passes called
      cases called
      have some_memory : r.memory ≠ 0 := by simpa using notNull
      rcases granted with ⟨null,_⟩ | ⟨_,fresh,more⟩
      · exact absurd null some_memory
      · have inside : r.memory + size.val < 2^64 := fresh.inside
        have bound := size.2.2
        refine ⟨⟨valid',?_,fun _ => rfl,(fun _ here => nomatch here),?_,rfl⟩,rfl,rfl,rfl⟩
        · rw [nothing] at more
          exact more
        · dsimp only
          omega

end Ownership

end TemporaryState
end BumpAllocators
