import Gameos.BumpRuns
import Gameos.TransitionRuns

-- Where the pieces of a temporary allocator and of an arena lie.
namespace BumpAllocators
open MachineWords AllocatorTypes AllocatorCalls AllocatorContract AllocatorLending TransitionRuns

section Pieces
variable {pieces : List Piece}

theorem gained_none (null : r.memory = 0) (size alignment : Int) (pieces : List Piece) :
    gained r size alignment pieces = pieces := if_pos null

theorem gained_some (notNull : r.memory ≠ 0) (size alignment : Int) (pieces : List Piece) :
    gained r size alignment pieces = ⟨⟨r.memory,size⟩,alignment⟩ :: pieces := if_neg notNull

theorem changed_fine (fine : r.error = .none) (size alignment : Int) (piece : Piece) (pieces : List Piece) :
    changed r size alignment piece pieces = gained r size alignment (pieces.erase piece) :=
  if_neg fun wrong => wrong fine

theorem erased_apart {piece : Piece} (apart : pieces.Pairwise fun a b => Apart a.toBlock b.toBlock) (here : piece ∈ pieces) :
    ∀ other ∈ pieces.erase piece, other ∈ pieces ∧ Apart piece.toBlock other.toBlock := by
  have split := ((List.perm_cons_erase here).pairwise_iff fun either => Or.symm either).mp apart
  exact fun other there => ⟨List.mem_of_mem_erase there,(List.pairwise_cons.mp split).1 other there⟩

theorem whole_divides (alignment : S64) (power : isPowerOfTwo alignment.val = true)
    (whole : pointer % toU64 alignment.val = 0) : alignment.val ∣ (pointer : Int) := by
  have positive := power_positive power
  have bound := alignment.2.2
  have word : toU64 alignment.val = alignment.val.toNat := by
    unfold toU64
    omega
  rw [word] at whole
  rw [← Int.toNat_of_nonneg (Int.le_of_lt positive)]
  exact Int.natCast_dvd_natCast.mpr (Nat.dvd_of_mod_eq_zero whole)

end Pieces

namespace TemporaryState
variable {lender : Lender σ} {state : TemporaryState} {s : σ} {pieces : List Piece}

-- No align_up behind this call wraps to null, unless a new page is then granted; and
-- none does in a new page.
def Clear (lender : Lender σ) (size alignment : Int) (state : TemporaryState) (s : σ) : Prop :=
  0 < size → isPowerOfTwo alignment = true →
    (state.Wrapped size alignment → state.backed = true ∧ ∃ page s',
      lender.allocator.alloc (pageBytes (state.pageSize size alignment)) maxAlign s = some (page,s') ∧ page.memory ≠ 0) ∧
    (state.backed = true → state.NoRoom size alignment → ∀ page s',
      lender.allocator.alloc (pageBytes (state.pageSize size alignment)) maxAlign s = some (page,s') → page.memory ≠ 0 →
      ∀ next, bump (add64 page.memory 16) (add64 (add64 page.memory 16) (toU64 (state.pageSize size alignment))) size alignment ≠
        some (0,next))

def Unwrapped (lender : Lender σ) (c : Config σ) : Call → Prop
  | .allocate size alignment => Clear lender size.val alignment.val c.state c.backing
  | .resize size alignment oldSize oldMemory =>
    oldMemory = 0 → oldSize.val < size.val → Clear lender size.val alignment.val c.state c.backing
  | .elsewhere => True

theorem Spread.same (spread : Spread state pieces) (fields : after.originalData = state.originalData ∧
    after.originalSize = state.originalSize ∧ after.overflowPages = state.overflowPages) : Spread after pieces := by
  obtain ⟨data,size,pages⟩ := fields
  refine ⟨?_,spread.apart⟩
  rw [areas,data,size,pages]
  exact spread.placed

theorem Owned.points (owned : Owned lender state s) (low : 0 ≤ state.currentPageBytesOccupied)
    (high : state.currentPageBytesOccupied ≤ state.size) :
    (state.currentPoint : Int) = state.data + state.currentPageBytesOccupied ∧
      (state.limit : Int) = state.data + state.size := by
  obtain ⟨here,positive,bound⟩ := owned.current_area
  have inside := (owned.area_inside here).2
  dsimp only at inside
  have words : toU64 state.currentPageBytesOccupied = state.currentPageBytesOccupied.toNat ∧
      toU64 state.size = state.size.toNat := by
    unfold toU64
    omega
  unfold currentPoint limit
  rw [words.1,words.2,add64_of_lt (by omega),add64_of_lt (by omega)]
  omega

-- How far the current page is occupied when it ends at `next`.
theorem occupied_bytes {data next : Nat} (low : data ≤ next) (small : (next : Int) - data < 9223372036854775808)
    (top : next < 18446744073709551616) : toS64 (sub64 next data) = next - data := by
  rw [sub64_of_le low (by omega),toS64_of_range (by omega) (by omega)]
  omega

-- The current page up to `next`, with one piece more before it.
theorem occupied_laid {piece : Piece} {next : Nat} (owned : Owned lender state s) (laid : Spread state pieces)
    (fields : after.originalData = state.originalData ∧ after.originalSize = state.originalSize ∧
      after.data = state.data ∧ after.size = state.size ∧ after.overflowPages = state.overflowPages ∧
      after.backed = state.backed ∧ after.currentPageBytesOccupied = toS64 (sub64 next state.data))
    (positive : 0 < piece.size) (divides : piece.alignment ∣ piece.pointer) (start : state.data ≤ piece.pointer)
    (ends : piece.pointer + piece.size = next) (fits : (next : Int) ≤ state.data + state.size)
    (others : ∀ other ∈ pieces, Apart piece.toBlock other.toBlock ∧
      (other.pointer + other.size ≤ next ∨ Apart other.toBlock ⟨state.data,state.size⟩)) :
    Laid after (piece :: pieces) := by
  obtain ⟨data,length,point,size,pages,_,occupied⟩ := fields
  obtain ⟨here,_,bound⟩ := owned.current_area
  have inside := (owned.area_inside here).2
  dsimp only at inside
  rw [occupied_bytes (by omega) (by omega) (by omega)] at occupied
  have spread : Spread after pieces := laid.same ⟨data,length,pages⟩
  have listed : ⟨state.data,state.size⟩ ∈ after.areas := by
    rw [areas,data,length,pages]
    exact here
  refine ⟨⟨List.forall_mem_cons.mpr ⟨⟨positive,divides,_,listed,start,?_⟩,spread.placed⟩,
    List.pairwise_cons.mpr ⟨fun other there => (others other there).1,spread.apart⟩⟩,?_,?_⟩
  · rw [ends]
    exact fits
  · rw [occupied,size]
    omega
  · rw [occupied,point,size]
    refine List.forall_mem_cons.mpr ⟨.inl (by omega),fun other there => ?_⟩
    rcases (others other there).2 with before | away
    · exact .inl (by omega)
    · exact .inr away

theorem occupy_laid (owned : Owned lender state s) (laid : Laid state pieces) (size alignment : S64) (positive : 0 < size.val)
    (power : isPowerOfTwo alignment.val = true)
    (room : bump state.currentPoint state.limit size.val alignment.val = some (aligned,next)) (notNull : aligned ≠ 0) :
    Laid (state.occupy next) (⟨⟨aligned,size.val⟩,alignment.val⟩ :: pieces) := by
  obtain ⟨low,high⟩ := laid.occupied
  obtain ⟨point,limit⟩ := owned.points low high
  obtain ⟨here,_,_⟩ := owned.current_area
  have inside := (owned.area_inside here).2
  dsimp only at inside
  obtain ⟨above,divides,ends,fits⟩ := bump_exact size alignment power positive (by omega) room notNull
  refine occupied_laid owned laid.toSpread (occupy_fields state next) positive divides ?_ ends.symm (by omega) ?_
  · dsimp only
    omega
  · intro other there
    rcases laid.behind other there with before | away
    · refine ⟨.inr ?_,.inl ?_⟩
      · dsimp only
        omega
      · omega
    · refine ⟨Within.apart (b:=⟨state.data,state.size⟩) ⟨?_,?_⟩ (apart_symm away),.inr away⟩
      · dsimp only
        omega
      · dsimp only
        omega

theorem fresh_page (owned : Owned lender (state.pushPage page) s) (spread : Spread state pieces)
    (older : Owned lender state s₀) : Laid (state.pushPage page) pieces := by
  have among : page ∈ (state.pushPage page).overflowPages := List.mem_cons_self
  have data := owned.page_data among
  have sizes := owned.sizes page among
  have apart := owned.apart
  have spans : (state.pushPage page).spans = ⟨page.address,overflowPageHeaderSize + page.size⟩ :: state.spans := rfl
  rw [spans,List.pairwise_cons] at apart
  refine ⟨⟨fun piece here => ?_,spread.apart⟩,⟨Int.le_refl 0,sizes.1⟩,fun piece here => .inr ?_⟩
  · obtain ⟨positive,divides,area,listed,within⟩ := spread.placed piece here
    exact ⟨positive,divides,area,List.mem_cons_of_mem _ listed,within⟩
  · obtain ⟨_,_,area,listed,within⟩ := spread.placed piece here
    obtain ⟨span,spanned,lies⟩ := older.area_span listed
    have away := (within.trans lies).apart (apart_symm (apart.1 span spanned))
    refine apart_symm (Within.apart ⟨?_,?_⟩ (apart_symm away))
    · show page.address ≤ page.data
      omega
    · show page.data + page.size ≤ page.address + (overflowPageHeaderSize + page.size)
      unfold overflowPageHeaderSize
      omega

theorem Laid.fewer (laid : Laid state pieces) (fewer : List.Sublist pieces' pieces) : Laid state pieces' :=
  ⟨⟨fun piece here => laid.placed piece (fewer.subset here),laid.apart.sublist fewer⟩,laid.occupied,
    fun piece here => laid.behind piece (fewer.subset here)⟩

theorem Tried.nowhere {size alignment : Int} (tried : Tried size alignment state after) : state.NoRoom size alignment := by
  intro aligned next fits
  cases tried with
  | full full =>
      rw [full] at fits
      cases fits
  | wrapped wrapped =>
      rw [wrapped] at fits
      cases fits
      rfl

theorem Allocated.laid {size alignment : S64}
    (done : Allocated lender.allocator size.val alignment.val state s r after s') (owned : Owned lender state s)
    (laid : Laid state pieces) (clear : Clear lender size.val alignment.val state s) :
    Laid after (gained r size.val alignment.val pieces) := by
  cases done with
  | unchanged null =>
      rw [gained_none null]
      exact laid
  | here positive power room ends =>
      rename_i aligned next
      by_cases null : aligned = 0
      · subst null
        have backed := ((clear positive power).1 ⟨next,room⟩).1
        rcases ends with given | unbacked
        · exact absurd rfl given
        · rw [backed] at unbacked
          cases unbacked
      · rw [gained_some (r:=success aligned) null]
        exact occupy_laid owned laid size alignment positive power room null
  | refused positive power backed tried asked null =>
      rw [gained_none null]
      cases tried with
      | full => exact laid
      | wrapped wrapped =>
          obtain ⟨_,page,s'',again,notNull⟩ := (clear positive power).1 ⟨_,wrapped⟩
          rw [asked] at again
          cases again
          exact absurd null notNull
  | unused positive power backed tried asked notNull =>
      obtain ⟨low,high⟩ := owned.page_range size alignment positive power
      obtain ⟨a,b,_,_,e,f⟩ := tried.fields
      have older := owned.same tried.fields
      rw [gained_none rfl]
      exact fresh_page (older.pushed (f.trans backed) low high asked notNull) (laid.toSpread.same ⟨a,b,e⟩) older
  | pushed positive power backed tried asked notNull room =>
      rename_i after page aligned next
      obtain ⟨low,high⟩ := owned.page_range size alignment positive power
      obtain ⟨a,b,_,_,e,f⟩ := tried.fields
      have older := owned.same tried.fields
      have grown := older.pushed (f.trans backed) low high asked notNull
      have fresh := fresh_page grown (laid.toSpread.same ⟨a,b,e⟩) older
      have given : aligned ≠ 0 := by
        rintro rfl
        have lands := room
        rw [pushed_room] at lands
        exact (clear positive power).2 backed tried.nowhere page _ asked notNull next lands
      rw [gained_some (r:=success aligned) given]
      exact occupy_laid grown fresh size alignment positive power room given

section Resize
variable {piece : Piece}

theorem shrink_laid {size : Int} (laid : Laid state pieces) (here : piece ∈ pieces) (positive : 0 < size) (smaller : size ≤ piece.size)
    (divides : alignment ∣ (piece.pointer : Int)) : Laid state (⟨⟨piece.pointer,size⟩,alignment⟩ :: pieces.erase piece) := by
  have rest := laid.fewer (List.erase_sublist (a:=piece))
  have within : Within ⟨piece.pointer,size⟩ piece.toBlock := by
    refine ⟨Nat.le_refl _,?_⟩
    dsimp only
    omega
  obtain ⟨_,_,area,listed,lies⟩ := laid.placed piece here
  refine ⟨⟨List.forall_mem_cons.mpr ⟨⟨positive,divides,area,listed,within.trans lies⟩,rest.placed⟩,
    List.pairwise_cons.mpr ⟨fun other there => within.apart (erased_apart laid.apart here other there).2,rest.apart⟩⟩,laid.occupied,
    List.forall_mem_cons.mpr ⟨?_,rest.behind⟩⟩
  rcases laid.behind piece here with before | away
  · refine .inl ?_
    dsimp only
    omega
  · exact .inr (within.apart away)

theorem grow_laid (owned : Owned lender state s) (laid : Laid state pieces) (here : piece ∈ pieces) (oldSize size : S64)
    (held : piece.size = oldSize.val) (larger : oldSize.val < size.val) (divides : alignment ∣ (piece.pointer : Int))
    (grown : grow state.currentPoint state.limit piece.pointer oldSize.val size.val = some next) :
    Laid (state.extend oldSize.val size.val next) (⟨⟨piece.pointer,size.val⟩,alignment⟩ :: pieces.erase piece) := by
  obtain ⟨low,high⟩ := laid.occupied
  obtain ⟨point,limit⟩ := owned.points low high
  obtain ⟨positive,_,area,listed,lies⟩ := laid.placed piece here
  have inside := (owned.area_inside listed).2
  have bounds := lies
  unfold Within at bounds
  obtain ⟨last,ends,fits⟩ := grow_exact oldSize size grown (by omega) (by omega) larger
  have current : area = ⟨state.data,state.size⟩ := owned.ends_here listed lies positive (by omega) (by omega)
  subst current
  dsimp only at bounds
  have rest := laid.toSpread
  refine occupied_laid owned ⟨fun other there => laid.placed other (List.mem_of_mem_erase there),
    laid.apart.sublist List.erase_sublist⟩ (extend_fields state _ _ _) ?_ divides bounds.1 ends.symm (by omega) ?_
  · dsimp only
    omega
  · intro other there
    obtain ⟨old,apart⟩ := erased_apart laid.apart here other there
    have some_bytes := (laid.placed other old).1
    unfold Apart at apart ⊢
    rcases laid.behind other old with before | away
    · dsimp only
      omega
    · unfold Apart at away
      dsimp only at away ⊢
      omega

theorem Resized.laid {size alignment oldSize : S64}
    (done : Resized lender.allocator size.val alignment.val oldSize.val piece.pointer state s r after s')
    (owned : Owned lender state s) (laid : Laid state pieces) (here : piece ∈ pieces) (held : piece.size = oldSize.val) :
    Laid after (changed r size.val alignment.val piece pieces) := by
  have notNull : piece.pointer ≠ 0 := by
    obtain ⟨_,_,area,listed,lies⟩ := laid.placed piece here
    have bounds := lies.1
    have some_area := (owned.area_inside listed).1
    omega
  cases done with
  | failed wrong =>
      rw [changed,if_pos wrong]
      exact laid
  | shrunk smaller low aligned power =>
      rw [changed_fine rfl]
      by_cases empty : size.val = 0
      · rw [if_pos empty,gained_none rfl]
        exact laid.fewer List.erase_sublist
      · rw [if_neg empty,gained_some (r:=success piece.pointer) notNull]
        exact shrink_laid laid here (by omega) (by omega) (whole_divides alignment power (aligned.resolve_left notNull))
  | grown _ larger aligned power grown =>
      rw [changed_fine rfl,gained_some (r:=success piece.pointer) notNull]
      exact grow_laid owned laid here oldSize size held larger (whole_divides alignment power aligned) grown
  | allocated null => exact absurd null notNull

end Resize

theorem Resized.laid_null {size alignment oldSize : S64}
    (done : Resized lender.allocator size.val alignment.val oldSize.val 0 state s r after s') (owned : Owned lender state s)
    (laid : Laid state pieces) (clear : oldSize.val < size.val → Clear lender size.val alignment.val state s) :
    Laid after (gained r size.val alignment.val pieces) := by
  cases done with
  | failed _ null =>
      rw [gained_none null]
      exact laid
  | shrunk =>
      rw [gained_none (ite_self 0)]
      exact laid
  | grown notNull => exact absurd rfl notNull
  | allocated _ larger done => exact done.laid owned laid (clear larger)

theorem Step.laid (step : Step lender c call d) (owned : Owned lender c.state c.backing) (laid : Laid c.state c.pieces)
    (clear : Unwrapped lender c call) : Laid d.state d.pieces := by
  cases step with
  | allocated size alignment called => exact (allocate_cases called).laid owned laid clear
  | resizedNull size alignment oldSize called => exact (resize_cases called).laid_null owned laid (clear rfl)
  | resized size alignment oldSize here held called => exact (resize_cases called).laid owned laid here held
  | elsewhere => exact laid

theorem Made.laid (made : Made lender c) : Laid c.state c.pieces := by
  obtain ⟨owned,nothing,start,_⟩ := made.starts
  obtain ⟨_,low,_⟩ := owned.current_area
  rw [nothing]
  refine ⟨⟨(fun _ here => nomatch here),.nil⟩,?_,(fun _ here => nomatch here)⟩
  rw [start]
  exact ⟨Int.le_refl 0,low⟩

-- The range of every piece is its own, and none reaches a header.
structure Separate (state : TemporaryState) (pieces : List Piece) : Prop where
  inside : ∀ piece ∈ pieces, piece.pointer ≠ 0 ∧ piece.alignment ∣ piece.pointer ∧ ∃ area ∈ state.areas, Within piece.toBlock area
  apart : pieces.Pairwise fun a b => Apart a.toBlock b.toBlock
  headers : ∀ piece ∈ pieces, ∀ header ∈ state.headers, Apart piece.toBlock header
  current : (state.data,state.size) = state.currentPage state.overflowPages
  occupied : 0 ≤ state.currentPageBytesOccupied ∧ state.currentPageBytesOccupied ≤ state.size

theorem Owned.header_apart (owned : Owned lender state s) (listed : area ∈ state.areas) (here : header ∈ state.headers) :
    Apart area header := by
  obtain ⟨page,among,rfl⟩ := List.mem_map.mp here
  have data := owned.page_data among
  have size := (owned.sizes page among).1
  have spanned : ⟨page.address,overflowPageHeaderSize + page.size⟩ ∈ state.spans :=
    List.mem_append_left _ (List.mem_map_of_mem among)
  have first : Within ⟨page.address,overflowPageHeaderSize⟩ ⟨page.address,overflowPageHeaderSize + page.size⟩ := by
    refine ⟨Nat.le_refl _,?_⟩
    dsimp only
    omega
  rcases List.mem_append.mp listed with paged | original
  · obtain ⟨other,later,rfl⟩ := List.mem_map.mp paged
    have data' := owned.page_data later
    by_cases same : other = page
    · subst same
      refine .inr ?_
      unfold overflowPageHeaderSize
      dsimp only
      omega
    · have spans_differ : (⟨other.address,overflowPageHeaderSize + other.size⟩ : Block) ≠
          ⟨page.address,overflowPageHeaderSize + page.size⟩ := by
        intro equal
        injection equal with address length
        exact same (by rw [show other = ⟨other.address,other.size⟩ from rfl,address,Int.add_left_cancel length])
      have away := owned.apart.forall (List.mem_append_left _ (List.mem_map_of_mem later)) spanned spans_differ
      refine Within.apart ⟨?_,?_⟩ (apart_symm (first.apart (apart_symm away)))
      · dsimp only
        omega
      · unfold overflowPageHeaderSize
        dsimp only
        omega
  · have away := (List.pairwise_append.mp owned.apart).2.2 _ (List.mem_map_of_mem among) area original
    exact apart_symm (first.apart away)

theorem Laid.separate (laid : Laid state pieces) (owned : Owned lender state s) : Separate state pieces := by
  refine ⟨fun piece here => ?_,laid.apart,fun piece here header there => ?_,owned.current,laid.occupied⟩
  · obtain ⟨_,divides,area,listed,within⟩ := laid.placed piece here
    have some_area := (owned.area_inside listed).1
    have bounds := within.1
    exact ⟨by omega,divides,area,listed,within⟩
  · obtain ⟨_,_,area,listed,within⟩ := laid.placed piece here
    exact within.apart (owned.header_apart listed there)

theorem run_separate (lender : Lender σ) (made : Made lender c) (run : Run (Step lender) (Unwrapped lender) c calls d) :
    Separate d.state d.pieces := by
  have kept := run.keeps (fun c => Owned lender c.state c.backing ∧ Laid c.state c.pieces)
    (fun c call d holds clear step => ⟨step.owned holds.1,step.laid holds.1 holds.2 clear⟩) ⟨made.starts.1,made.laid⟩
  exact kept.2.separate kept.1

end TemporaryState

namespace ArenaState

structure Config where
  state : ArenaState
  pieces : List Piece

-- The constructors, over a buffer of the caller or over memory that is lent.
inductive Made (lender : Lender σ) : Config → Prop where
  | overMemory (memory : Nat) (size : S64) : (memory : Int) + size.val < 18446744073709551616 →
      overMemory memory size.val = .ok state → Made lender ⟨state,[]⟩
  | backedBy (reserve : S64) : lender.valid before → backedBy lender.allocator reserve.val before = .ok (state,s) →
      Made lender ⟨state,[]⟩

inductive Step : Config → Call → Config → Prop where
  | allocated (size alignment : S64) : allocate size.val alignment.val c.state = (r,state) →
      Step c (.allocate size alignment) ⟨state,gained r size.val alignment.val c.pieces⟩
  | resizedNull (size alignment oldSize : S64) : resize size.val alignment.val oldSize.val 0 c.state = (r,state) →
      Step c (.resize size alignment oldSize 0) ⟨state,gained r size.val alignment.val c.pieces⟩
  | resized (size alignment oldSize : S64) : piece ∈ c.pieces → piece.size = oldSize.val →
      resize size.val alignment.val oldSize.val piece.pointer c.state = (r,state) →
      Step c (.resize size alignment oldSize piece.pointer) ⟨state,changed r size.val alignment.val piece c.pieces⟩

def Wrapped (state : ArenaState) (size alignment : Int) : Prop :=
  0 < size ∧ isPowerOfTwo alignment = true ∧ ∃ next, bump state.currentPoint state.addressLimit size alignment = some (0,next)

-- No align_up behind this call wraps to null.
def Unwrapped (c : Config) : Call → Prop
  | .allocate size alignment => ¬ c.state.Wrapped size.val alignment.val
  | .resize size alignment oldSize oldMemory => oldMemory = 0 → oldSize.val < size.val → ¬ c.state.Wrapped size.val alignment.val
  | .elsewhere => True

structure Separate (state : ArenaState) (pieces : List Piece) : Prop where
  inside : ∀ piece ∈ pieces, 0 < piece.size ∧ piece.alignment ∣ piece.pointer ∧ state.memoryBase ≤ piece.pointer ∧
    piece.pointer + piece.size ≤ state.currentPoint
  apart : pieces.Pairwise fun a b => Apart a.toBlock b.toBlock
  base : state.memoryBase ≠ 0
  point : state.memoryBase ≤ state.currentPoint ∧ state.currentPoint ≤ state.addressLimit
  top : state.addressLimit < 18446744073709551616

section Pieces
variable {lender : Lender σ} {state : ArenaState} {pieces : List Piece}

theorem Separate.fewer (separate : Separate state pieces) (fewer : List.Sublist pieces' pieces) : Separate state pieces' :=
  ⟨fun piece here => separate.inside piece (fewer.subset here),separate.apart.sublist fewer,separate.base,separate.point,
    separate.top⟩

-- The arena up to `next`, with one piece more before it.
theorem occupied_separate {piece : Piece} {next : Nat} (separate : Separate state pieces) (positive : 0 < piece.size)
    (divides : piece.alignment ∣ piece.pointer) (start : state.memoryBase ≤ piece.pointer)
    (ends : piece.pointer + piece.size = next) (further : state.currentPoint ≤ next) (fits : next ≤ state.addressLimit)
    (others : ∀ other ∈ pieces, Apart piece.toBlock other.toBlock) :
    Separate {state with currentPoint := next} (piece :: pieces) := by
  refine ⟨List.forall_mem_cons.mpr ⟨⟨positive,divides,start,Int.le_of_eq ends⟩,fun other there => ?_⟩,
    List.pairwise_cons.mpr ⟨others,separate.apart⟩,separate.base,⟨Nat.le_trans separate.point.1 further,fits⟩,separate.top⟩
  obtain ⟨some_bytes,whole,low,high⟩ := separate.inside other there
  refine ⟨some_bytes,whole,low,?_⟩
  dsimp only
  omega

theorem allocate_separate (separate : Separate state pieces) (size alignment : S64)
    (called : allocate size.val alignment.val state = (r,after)) (clear : ¬ state.Wrapped size.val alignment.val) :
    Separate after (gained r size.val alignment.val pieces) := by
  unfold allocate at called
  split at called
  · cases called
    exact separate
  split at called
  · cases called
    exact separate
  split at called
  · cases called
    exact separate
  rename_i valid some_size
  rw [not_or,Bool.not_eq_false] at valid
  have positive : 0 < size.val := by omega
  cases room : bump state.currentPoint state.addressLimit size.val alignment.val with
  | none =>
      rw [room] at called
      cases called
      exact separate
  | some result =>
      obtain ⟨aligned,next⟩ := result
      rw [room] at called
      cases called
      have notNull : aligned ≠ 0 := by
        rintro rfl
        exact clear ⟨positive,valid.2,next,room⟩
      have top := separate.top
      obtain ⟨low,high⟩ := separate.point
      obtain ⟨above,divides,ends,fits⟩ := bump_exact size alignment valid.2 positive (by omega) room notNull
      rw [gained_some (r:=success aligned) notNull]
      refine occupied_separate separate positive divides (Nat.le_trans low above) ends.symm (by omega) fits ?_
      intro other there
      have before := (separate.inside other there).2.2.2
      refine .inr ?_
      dsimp only [success]
      omega

theorem resize_separate {piece : Piece} (separate : Separate state pieces) (here : piece ∈ pieces) (size alignment oldSize : S64)
    (held : piece.size = oldSize.val) (called : resize size.val alignment.val oldSize.val piece.pointer state = (r,after)) :
    Separate after (changed r size.val alignment.val piece pieces) := by
  obtain ⟨positive,_,start,ends⟩ := separate.inside piece here
  have base := separate.base
  have point := separate.point
  have top := separate.top
  have rest := separate.fewer (List.erase_sublist (a:=piece))
  unfold resize at called
  split at called
  · cases called
    exact separate
  split at called
  · cases called
    exact separate
  rename_i valid misaligned
  rw [not_or,Bool.not_eq_false] at valid
  have whole : piece.pointer % toU64 alignment.val = 0 := by
    by_contra odd
    exact misaligned ⟨by omega,odd⟩
  have divides := whole_divides alignment valid.2 whole
  split at called
  · cases called
    rw [changed_fine rfl]
    by_cases empty : size.val = 0
    · rw [if_pos empty,gained_none rfl]
      exact rest
    · rw [if_neg empty,gained_some (r:=success piece.pointer) (by dsimp only [success]; omega)]
      refine ⟨List.forall_mem_cons.mpr ⟨⟨?_,divides,start,?_⟩,rest.inside⟩,
        List.pairwise_cons.mpr ⟨fun other there => ?_,rest.apart⟩,base,point,top⟩
      · dsimp only
        omega
      · dsimp only [success]
        omega
      · refine Within.apart (b:=piece.toBlock) ⟨Nat.le_refl _,?_⟩ (erased_apart separate.apart here other there).2
        dsimp only [success]
        omega
  rename_i larger
  cases grown : grow state.currentPoint state.addressLimit piece.pointer oldSize.val size.val with
  | none =>
      rw [grown] at called
      have fails := (if_neg (by omega : ¬ piece.pointer = 0)).symm.trans called
      cases fails
      exact separate
  | some next =>
      rw [grown] at called
      cases called
      obtain ⟨last,reaches,fits⟩ := grow_exact oldSize size grown (by omega) (by omega) (by omega)
      rw [changed_fine rfl,gained_some (r:=success piece.pointer) (by dsimp only [success]; omega)]
      refine occupied_separate rest ?_ divides start reaches.symm (by omega) fits fun other there => ?_
      · dsimp only
        omega
      · obtain ⟨old,apart⟩ := erased_apart separate.apart here other there
        have before := separate.inside other old
        unfold Apart at apart ⊢
        dsimp only [success]
        omega

theorem resizeNull_separate (separate : Separate state pieces) (size alignment oldSize : S64)
    (called : resize size.val alignment.val oldSize.val 0 state = (r,after))
    (clear : oldSize.val < size.val → ¬ state.Wrapped size.val alignment.val) :
    Separate after (gained r size.val alignment.val pieces) := by
  unfold resize at called
  split at called
  · cases called
    exact separate
  split at called
  · cases called
    exact separate
  split at called
  · cases called
    rw [gained_none (ite_self 0)]
    exact separate
  · rename_i larger
    have still : grow state.currentPoint state.addressLimit 0 oldSize.val size.val = none := if_neg fun known => known.1 rfl
    rw [still] at called
    have again := (if_pos rfl).symm.trans called
    exact allocate_separate separate size alignment again (clear (by omega))

theorem Step.separate (step : Step c call d) (separate : Separate c.state c.pieces) (clear : Unwrapped c call) :
    Separate d.state d.pieces := by
  cases step with
  | allocated size alignment called => exact allocate_separate separate size alignment called clear
  | resizedNull size alignment oldSize called =>
      exact resizeNull_separate separate size alignment oldSize called (clear rfl)
  | resized size alignment oldSize here held called => exact resize_separate separate here size alignment oldSize held called

-- An arena of which nothing is occupied.
theorem empty_separate {base : Nat} {size : Int} (allocated : Int) (backed : Bool) (notNull : base ≠ 0) (low : 0 ≤ size)
    (inside : base + size < 18446744073709551616) : Separate ⟨allocated,base,base,add64 base (toU64 size),backed⟩ [] := by
  have word : toU64 size = size.toNat := by
    unfold toU64
    omega
  rw [word,add64_of_lt (by omega)]
  refine ⟨(fun _ here => nomatch here),.nil,notNull,⟨Nat.le_refl _,?_⟩,?_⟩
  · dsimp only
    omega
  · dsimp only
    omega

theorem Made.separate (made : Made lender c) : Separate c.state c.pieces := by
  cases made with
  | overMemory memory size inside called =>
      unfold ArenaState.overMemory at called
      obtain ⟨notNull,called⟩ := TemporaryState.demand_passes called
      obtain ⟨positive,called⟩ := TemporaryState.demand_passes called
      cases called
      have some_size : 0 < size.val := by simpa using positive
      exact empty_separate _ _ (by simpa using notNull) (Int.le_of_lt some_size) inside
  | backedBy reserve valid called =>
      rename_i before state s
      unfold ArenaState.backedBy at called
      dsimp only at called
      generalize alignUpSize reserve.val pageSize = allocated at called
      obtain ⟨r,s',asked,_,granted⟩ := lender.lends valid allocated maxAlign
      have run : underneath (lender.allocator.alloc allocated maxAlign before) = .ok (r,s') := by
        rw [asked]
        rfl
      rw [run,TemporaryState.ok_bind] at called
      obtain ⟨notNull,called⟩ := TemporaryState.demand_passes called
      obtain ⟨_,called⟩ := TemporaryState.demand_passes called
      cases called
      have some_memory : r.memory ≠ 0 := by simpa using notNull
      rcases granted with ⟨null,_⟩ | ⟨_,fresh,_⟩
      · exact absurd null some_memory
      · have inside : r.memory + allocated < 2^64 := fresh.inside
        exact empty_separate _ _ some_memory (Int.le_of_lt fresh.positive) (by dsimp only; omega)

end Pieces

theorem run_separate (lender : Lender σ) (made : Made lender c) (run : Run Step Unwrapped c calls d) :
    Separate d.state d.pieces :=
  run.keeps (fun c => Separate c.state c.pieces) (fun _ _ _ separate clear step => step.separate separate clear) made.separate

end ArenaState

-- Where no align_up wraps to null, the pieces of a temporary allocator and of an arena lie
-- apart from each other and from the headers, in the memory that is theirs.
theorem pieces_separate (lender : Lender σ) :
    (∀ c calls d, TemporaryState.Made lender c →
      Run (TemporaryState.Step lender) (TemporaryState.Unwrapped lender) c calls d →
      TemporaryState.Separate d.state d.pieces) ∧
    ∀ c calls d, ArenaState.Made lender c → Run ArenaState.Step ArenaState.Unwrapped c calls d →
      ArenaState.Separate d.state d.pieces :=
  ⟨fun _ _ _ made run => TemporaryState.run_separate lender made run,
    fun _ _ _ made run => ArenaState.run_separate lender made run⟩

-- A buffer of 64 bytes, with a piece in it that then grows in its place.
def smallBuffer (occupied : Int) : TemporaryState := ⟨4096,64,4096,64,occupied,occupied,occupied,[],false⟩

theorem clear_at {lender : Lender σ} {state : TemporaryState} (unbacked : state.backed = false)
    (room : bump state.currentPoint state.limit size alignment = some (aligned,next)) (notNull : aligned ≠ 0) :
    TemporaryState.Clear lender size alignment state s := by
  refine fun _ _ => ⟨?_,fun backed => ?_⟩
  · rintro ⟨other,wraps⟩
    rw [room] at wraps
    cases wraps
    exact absurd rfl notNull
  · rw [unbacked] at backed
    cases backed

theorem pieces_separate_buffer : ∃ d : TemporaryState.Config Shelf, d.pieces = [⟨⟨4096,24⟩,8⟩] ∧
    TemporaryState.Separate d.state d.pieces := by
  have made : TemporaryState.Made (ofContract shelves_contract shelves_free) ⟨smallBuffer 0,.empty 1,[]⟩ :=
    .overMemory 4096 ⟨64,by decide⟩ (by decide) trivial rfl rfl
  have allocated : TemporaryState.Step (ofContract shelves_contract shelves_free) ⟨smallBuffer 0,.empty 1,[]⟩
      (.allocate ⟨8,by decide⟩ ⟨8,by decide⟩) ⟨smallBuffer 8,.empty 1,[⟨⟨4096,8⟩,8⟩]⟩ := by
    have room : bump (smallBuffer 0).currentPoint (smallBuffer 0).limit 8 8 = some (4096,4104) := by decide
    have after : (smallBuffer 0).occupy 4104 = smallBuffer 8 := by decide
    have first := TemporaryState.fromCurrentPage_some room
    rw [after] at first
    have called := TemporaryState.allocate_first (by decide : (smallBuffer 0).data ≠ 0) (by decide : (0 : Int) < 8)
      (by decide) first (.inl (by decide : 4096 ≠ 0)) (ofContract shelves_contract shelves_free).allocator
      (s:=Shelf.empty 1)
    have step := TemporaryState.Step.allocated (c:=⟨smallBuffer 0,Shelf.empty 1,[]⟩) ⟨8,by decide⟩ ⟨8,by decide⟩ called
    rw [gained_some (r:=success 4096) (by decide : 4096 ≠ 0)] at step
    exact step
  have resized : TemporaryState.Step (ofContract shelves_contract shelves_free) ⟨smallBuffer 8,.empty 1,[⟨⟨4096,8⟩,8⟩]⟩
      (.resize ⟨24,by decide⟩ ⟨8,by decide⟩ ⟨8,by decide⟩ 4096) ⟨smallBuffer 24,.empty 1,[⟨⟨4096,24⟩,8⟩]⟩ := by
    have room : grow (smallBuffer 8).currentPoint (smallBuffer 8).limit 4096 8 24 = some 4120 := by decide
    have after : (smallBuffer 8).extend 8 24 4120 = smallBuffer 24 := by decide
    have called : TemporaryState.resize shelves 24 8 8 4096 (smallBuffer 8) (Shelf.empty 1) =
        .ok (success 4096,smallBuffer 24,.empty 1) := by
      unfold TemporaryState.resize
      rw [if_neg (by decide),if_neg (by decide),if_neg (by decide),room,← after]
    have here : (⟨⟨4096,8⟩,8⟩ : Piece) ∈ [(⟨⟨4096,8⟩,8⟩ : Piece)] := List.mem_cons_self
    exact .resized (c:=⟨smallBuffer 8,Shelf.empty 1,_⟩) ⟨24,by decide⟩ ⟨8,by decide⟩ ⟨8,by decide⟩ here rfl called
  have clear : TemporaryState.Unwrapped (ofContract shelves_contract shelves_free) ⟨smallBuffer 0,.empty 1,[]⟩
      (.allocate ⟨8,by decide⟩ ⟨8,by decide⟩) := by
    have room : bump (smallBuffer 0).currentPoint (smallBuffer 0).limit 8 8 = some (4096,4104) := by decide
    exact clear_at rfl room (by decide)
  have known : TemporaryState.Unwrapped (ofContract shelves_contract shelves_free) ⟨smallBuffer 8,.empty 1,[⟨⟨4096,8⟩,8⟩]⟩
      (.resize ⟨24,by decide⟩ ⟨8,by decide⟩ ⟨8,by decide⟩ 4096) := fun null => absurd null (by decide)
  exact ⟨_,rfl,(pieces_separate (ofContract shelves_contract shelves_free)).1 _ _ _ made
    (.cons clear allocated (.single known resized))⟩

-- A buffer of 64 bytes 4096 bytes below the top of the address space: the pointer for an
-- alignment of 8192 wraps to null, and the page then counts 4104 bytes.
theorem wrapped_occupies : ¬ ∀ (c d : TemporaryState.Config Shelf) (calls : List Call),
    TemporaryState.Made (ofContract shelves_contract shelves_free) c →
    Run (TemporaryState.Step (ofContract shelves_contract shelves_free)) (fun _ _ => True) c calls d →
    TemporaryState.Separate d.state d.pieces := by
  intro every
  have made : TemporaryState.Made (ofContract shelves_contract shelves_free)
      ⟨⟨18446744073709547520,64,18446744073709547520,64,0,0,0,[],false⟩,.empty 1,[]⟩ :=
    .overMemory 18446744073709547520 ⟨64,by decide⟩ (by decide) trivial rfl rfl
  have separate := every _ _ _ made (.single trivial (.allocated ⟨8,by decide⟩ ⟨8192,by decide⟩ rfl))
  exact absurd separate.occupied.2 (by decide)

end BumpAllocators
