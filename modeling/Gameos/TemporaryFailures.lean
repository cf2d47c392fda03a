import Gameos.BumpAllocators

-- What a failed call leaves behind in a temporary allocator.
namespace BumpAllocators
open MachineWords AllocatorTypes AllocatorCalls

-- A backing allocator with the blocks it has given out. A refusal gives out none, and a
-- block ends below the top of the address space.
structure Backing (σ : Type) where
  allocator : Allocator σ
  held : σ → List Nat
  refused : allocator.procAllocate size alignment s = some (r,s') → r.memory = 0 → held s' = held s
  granted : allocator.procAllocate size alignment s = some (r,s') → r.memory ≠ 0 →
    held s' = r.memory :: held s ∧ r.memory + size < 18446744073709551616

namespace TemporaryState

-- Every state that the constructors and the calls make, on any state of the backing allocator.
inductive Reachable (backing : Backing σ) : TemporaryState → σ → Prop where
  | overMemory (size : S64) : overMemory memory size = .ok state → Reachable backing state s
  | backedBy (size : S64) : backedBy backing.allocator size before = .ok (state,s) → Reachable backing state s
  | elsewhere : Reachable backing state before → Reachable backing state s
  | allocate (size alignment : S64) : Reachable backing before first →
      allocate backing.allocator size alignment before first = .ok (r,state,s) → Reachable backing state s
  | resize (size alignment oldSize : S64) : Reachable backing before first →
      resize backing.allocator size alignment oldSize oldMemory before first = .ok (r,state,s) →
      Reachable backing state s
  | rewind : Reachable backing before first → rewind backing.allocator markPoint before first = .ok (state,s) →
      Reachable backing state s
  | reset : Reachable backing before first → reset backing.allocator before first = .ok (state,s) →
      Reachable backing state s

-- An error leaves the whole state and the blocks of the backing allocator as they were.
def Unchanged (backing : Backing σ) (state : TemporaryState) (s : σ)
    (outcome : Except Trap (AllocatorResult × TemporaryState × σ)) : Prop :=
  ∀ r state' s', outcome = .ok (r,state',s') → r.error ≠ .none → state' = state ∧ backing.held s' = backing.held s

-- The current page gives no memory, or the null pointer of an align_up that wrapped.
def NoRoom (state : TemporaryState) (size alignment : Int) : Prop :=
  ∀ aligned next, bump state.currentPoint state.limit size alignment = some (aligned,next) → aligned = 0

def Wrapped (state : TemporaryState) (size alignment : Int) : Prop :=
  ∃ next, bump state.currentPoint state.limit size alignment = some (0,next)

def defaultPageSize (state : TemporaryState) : Int :=
  if overflowPageHeaderSize < state.originalSize then state.originalSize - overflowPageHeaderSize else 0

-- Behind the header, a page of default size holds the allocation.
def DefaultHolds (state : TemporaryState) (size alignment : Int) (page : Nat) : Prop :=
  (bump (add64 page 16) (add64 (add64 page 16) (toU64 state.defaultPageSize)) size alignment).isSome = true

-- When a new page is asked for: a refusal finds the current page untouched, and a page
-- that is granted is large enough.
def Refundable (backing : Backing σ) (size alignment : Int) (state : TemporaryState) (s : σ) : Prop :=
  state.data ≠ 0 → 0 < size → isPowerOfTwo alignment = true → state.NoRoom size alignment → state.backed = true →
    ∀ r s', backing.allocator.alloc (pageBytes (state.pageSize size alignment)) maxAlign s = some (r,s') →
      (r.memory = 0 → r.error ≠ .none → ¬ state.Wrapped size alignment) ∧
      (r.memory ≠ 0 → size + alignment < 9223372036854775808 ∨ state.DefaultHolds size alignment r.memory)

section Page
variable {backing : Backing σ} {state : TemporaryState} {size alignment : Int}

theorem alloc_refused (called : backing.allocator.alloc bytes alignment s = some (r,s')) (null : r.memory = 0) :
    backing.held s' = backing.held s := by
  unfold Allocator.alloc at called
  split at called
  · cases called
    rfl
  · split at called
    · cases called
      rfl
    · exact backing.refused called null

theorem alloc_granted (called : backing.allocator.alloc bytes alignment s = some (r,s')) (given : r.memory ≠ 0) :
    0 ≤ bytes ∧ r.memory + bytes < 18446744073709551616 := by
  unfold Allocator.alloc at called
  split at called
  · cases called
    exact absurd rfl given
  · split at called
    · cases called
      exact absurd rfl given
    · exact ⟨by omega,(backing.granted called given).2⟩

theorem pageBytes_fits (page : Int) (low : 0 ≤ page) (high : page < 9223372036854775808) (given : 0 ≤ pageBytes page) :
    16 + page ≤ pageBytes page := by
  have word : toU64 (toS64 (overflowPageHeaderSize + page)) = (16 + page).toNat := by
    unfold overflowPageHeaderSize toU64 toS64
    omega
  obtain ⟨above,below,_⟩ := alignUp_bounds (16 + page).toNat 4 (by decide) (by omega)
  unfold pageBytes alignUpSize at given ⊢
  rw [word] at given ⊢
  unfold maxAlign at given ⊢
  have sixteen : (2:Nat)^4 = 16 := rfl
  rw [sixteen] at above below
  unfold toS64 at given ⊢
  omega

theorem pageSize_cases (state : TemporaryState) (small : state.originalSize < 9223372036854775808)
    (positive : 0 < size) (bound : size < 9223372036854775808) (power : 0 < alignment)
    (width : alignment < 9223372036854775808) :
    0 ≤ state.pageSize size alignment ∧ state.pageSize size alignment < 9223372036854775808 ∧
      (size + alignment < 9223372036854775808 ∧ size + alignment ≤ state.pageSize size alignment ∨
        9223372036854775808 ≤ size + alignment ∧ state.pageSize size alignment = state.defaultPageSize) := by
  have default : 0 ≤ state.defaultPageSize ∧ state.defaultPageSize < 9223372036854775808 := by
    unfold defaultPageSize overflowPageHeaderSize
    split <;> omega
  have same : state.pageSize size alignment =
      if toS64 (size + alignment) < state.defaultPageSize then state.defaultPageSize else toS64 (size + alignment) := rfl
  rw [same]
  by_cases fits : size + alignment < 9223372036854775808
  · have sum : toS64 (size + alignment) = size + alignment := toS64_of_range (by omega) (by omega)
    rw [sum]
    split <;> omega
  · have sum : toS64 (size + alignment) < 0 := by
      unfold toS64
      omega
    rw [if_pos (by omega)]
    omega

-- A page that is as large as size and alignment together holds the allocation.
theorem page_holds (page : Nat) (k : Nat) (power : alignment = (2^k : Nat)) (width : alignment < 9223372036854775808)
    (positive : 0 < size) (length : Int) (large : size + alignment ≤ length)
    (inside : (page : Int) + (16 + length) < 18446744073709551616) :
    (bump (add64 page 16) (add64 (add64 page 16) (toU64 length)) size alignment).isSome = true := by
  have exponent : k < 64 := by
    by_contra wide
    have large : (2:Nat)^64 ≤ 2^k := Nat.pow_le_pow_right (by decide) (by omega)
    omega
  have unit : 0 < 2^k := Nat.two_pow_pos k
  have data : add64 page 16 = page + 16 := add64_of_lt (by omega)
  have span : toU64 length = length.toNat := by
    unfold toU64
    omega
  have limit : add64 (page + 16) length.toNat = page + 16 + length.toNat := add64_of_lt (by omega)
  have bytes : toU64 size = size.toNat := by
    unfold toU64
    omega
  have step : toU64 alignment = 2^k := by
    rw [power]
    exact toU64_nat _ (by omega)
  obtain ⟨above,below,_⟩ := alignUp_bounds (page + 16) k exponent (by omega)
  have next : add64 (alignUp (page + 16) (2^k)) size.toNat = alignUp (page + 16) (2^k) + size.toNat :=
    add64_of_lt (by omega)
  unfold bump
  rw [data,span,limit,bytes,step]
  dsimp only
  rw [next,if_neg (by omega)]
  rfl

theorem add64_zero (point : Nat) : add64 (add64 point n) 0 = add64 point n := by
  unfold add64
  omega

-- The retry in a page that was pushed.
theorem pushed_room (size alignment : Int) (state : TemporaryState) (page : Nat) (length : Int) :
    bump (state.pushPage ⟨page,length⟩).currentPoint (state.pushPage ⟨page,length⟩).limit size alignment =
      bump (add64 page 16) (add64 (add64 page 16) (toU64 length)) size alignment := by
  have header : toU64 overflowPageHeaderSize = 16 := by decide
  have start : toU64 0 = 0 := by decide
  unfold currentPoint limit pushPage OverflowPage.data
  dsimp only
  rw [header,start,add64_zero]

end Page

section Allocate
variable (backing : Backing σ) {state : TemporaryState} {s : σ} {size alignment : Int}

-- The definition as a function: unfolding it at a state would make the checker look
-- into the addresses.
theorem allocateFromCurrentPage_def : allocateFromCurrentPage = fun requestedSize alignment state =>
    match bump state.currentPoint state.limit requestedSize alignment with
    | none => (failure .outOfMemory,state)
    | some (aligned,next) => (success aligned,state.occupy next) := by
  delta allocateFromCurrentPage
  rfl

theorem fromCurrentPage_none (full : bump state.currentPoint state.limit size alignment = none) :
    state.allocateFromCurrentPage size alignment = (failure .outOfMemory,state) := by
  rw [allocateFromCurrentPage_def]
  dsimp only
  rw [full]

theorem fromCurrentPage_some (room : bump state.currentPoint state.limit size alignment = some (aligned,next)) :
    state.allocateFromCurrentPage size alignment = (success aligned,state.occupy next) := by
  rw [allocateFromCurrentPage_def]
  dsimp only
  rw [room]

theorem occupy_backed (state : TemporaryState) (next : Nat) :
    (state.occupy next).backed = state.backed ∧ (state.occupy next).originalSize = state.originalSize ∧
      (state.occupy next).overflowPages = state.overflowPages := by
  unfold occupy updateHighWaterMark
  split <;> exact ⟨rfl,rfl,rfl⟩

theorem occupy_changes (moves : toS64 (sub64 next state.data) ≠ state.currentPageBytesOccupied) :
    state.occupy next ≠ state := by
  intro same
  have occupied := congrArg currentPageBytesOccupied same
  unfold occupy updateHighWaterMark at occupied
  split at occupied <;> exact moves occupied

theorem valid_call (positive : 0 < size) (power : isPowerOfTwo alignment = true) :
    ¬ (size < 0 ∨ isPowerOfTwo alignment = false) := by
  rintro (negative | invalid)
  · omega
  · rw [power] at invalid
    cases invalid

theorem allocate_first (some_data : state.data ≠ 0) (positive : 0 < size) (power : isPowerOfTwo alignment = true)
    (first : state.allocateFromCurrentPage size alignment = (allocation,after))
    (ends : allocation.memory ≠ 0 ∨ after.backed = false) (allocator : Allocator σ) :
    allocate allocator size alignment state s = .ok (allocation,after,s) := by
  unfold allocate
  rw [first,if_neg some_data,if_neg (valid_call positive power),if_neg (by omega)]
  exact if_pos ends

theorem addNewOverflowPage_cases (allocator : Allocator σ) (s : σ) (state : TemporaryState) :
    (allocator.alloc (pageBytes (state.pageSize size alignment)) maxAlign s = none ∧
        addNewOverflowPage allocator size alignment state s = .error .rejected) ∨
      ∃ r s', allocator.alloc (pageBytes (state.pageSize size alignment)) maxAlign s = some (r,s') ∧
        addNewOverflowPage allocator size alignment state s =
          if r.memory = 0 then .ok (r,state,s')
          else .ok (success r.memory,state.pushPage ⟨r.memory,state.pageSize size alignment⟩,s') := by
  cases called : allocator.alloc (pageBytes (state.pageSize size alignment)) maxAlign s with
  | none =>
      have run : underneath (allocator.alloc (pageBytes (state.pageSize size alignment)) maxAlign s) = .error .rejected := by
        rw [called]
        rfl
      refine .inl ⟨rfl,?_⟩
      unfold addNewOverflowPage
      extract_lets length
      change underneath (allocator.alloc (pageBytes length) maxAlign s) = .error .rejected at run
      rw [run]
      rfl
  | some result =>
      obtain ⟨r,s'⟩ := result
      have run : underneath (allocator.alloc (pageBytes (state.pageSize size alignment)) maxAlign s) = .ok (r,s') := by
        rw [called]
        rfl
      refine .inr ⟨r,s',rfl,?_⟩
      unfold addNewOverflowPage
      extract_lets length
      change underneath (allocator.alloc (pageBytes length) maxAlign s) = .ok (r,s') at run
      rw [run]
      by_cases null : r.memory = 0
      · rw [if_pos null]
        exact if_pos null
      · rw [if_neg null]
        exact if_neg null

theorem push_changes (state : TemporaryState) (page : OverflowPage) (changed : TemporaryState)
    (kept : changed.overflowPages = page :: state.overflowPages) : changed ≠ state := by
  intro same
  have length := congrArg (fun state : TemporaryState => state.overflowPages.length) same
  rw [kept,List.length_cons] at length
  omega

theorem unchanged_same (ends : outcome = .ok (r,state,s)) : Unchanged backing state s outcome := by
  intro r' state' s' returned _
  rw [ends] at returned
  cases returned
  exact ⟨rfl,rfl⟩

theorem unchanged_success (ends : outcome = .ok (success memory,after,s')) : Unchanged backing state s outcome := by
  intro r state' later returned error
  rw [ends] at returned
  cases returned
  exact absurd rfl error

theorem word_back (small : value < 18446744073709551616) : toU64 (toS64 (value : Nat)) = value := by
  unfold toU64 toS64
  omega

theorem sum_back (data : Nat) (small : value < 18446744073709551616) : add64 data (sub64 value data) = value := by
  unfold add64 sub64
  omega

-- A null pointer that fits below the limit moves the current page.
theorem wrapped_changes (size alignment : S64) (positive : 0 < size.val) (power : isPowerOfTwo alignment.val = true)
    (room : bump state.currentPoint state.limit size.val alignment.val = some (0,next)) : state.occupy next ≠ state := by
  obtain ⟨k,exact_power⟩ := isPowerOfTwo_exact.mp power
  have high := alignment.2.2
  have large := size.2.2
  have exponent : k < 63 := by
    by_contra wide
    have past : (2:Nat)^63 ≤ 2^k := Nat.pow_le_pow_right (by decide) (by omega)
    omega
  have small : (2:Nat)^k ≤ 2^62 := Nat.pow_le_pow_right (by decide) (by omega)
  have step : toU64 alignment.val = 2^k := by
    rw [exact_power]
    exact toU64_nat _ (by omega)
  have bytes : toU64 size.val = size.val.toNat := by
    unfold toU64
    omega
  unfold bump at room
  rw [step,bytes] at room
  dsimp only at room
  split at room
  · cases room
  · injection room with pair
    injection pair with aligned last
    rw [aligned] at last
    have next_exact : next = size.val.toNat := by
      rw [← last]
      unfold add64
      omega
    apply occupy_changes
    intro kept
    have point : state.currentPoint = size.val.toNat := by
      have difference : sub64 next state.data < 18446744073709551616 := Nat.mod_lt _ (by decide)
      unfold currentPoint
      rw [← kept,word_back difference,sum_back _ (by omega),next_exact]
    rw [point] at aligned
    have above := (alignUp_bounds size.val.toNat k (by omega) (by omega)).1
    omega

-- A call that asks for a page returns nothing, the refusal, or the retry.
theorem asked_trapped (some_data : state.data ≠ 0) (positive : 0 < size) (power : isPowerOfTwo alignment = true)
    (first : state.allocateFromCurrentPage size alignment = (allocation,after))
    (asks : ¬ (allocation.memory ≠ 0 ∨ after.backed = false)) (allocator : Allocator σ)
    (page : addNewOverflowPage allocator size alignment after s = .error trap) :
    allocate allocator size alignment state s = .error trap := by
  unfold allocate
  rw [first,if_neg some_data,if_neg (valid_call positive power),if_neg (by omega)]
  refine (if_neg asks).trans ?_
  rw [page]
  rfl

theorem ok_bind (value : α) (next : α → Except Trap β) : (Except.ok value >>= next) = next value := rfl

theorem asked_denied (some_data : state.data ≠ 0) (positive : 0 < size) (power : isPowerOfTwo alignment = true)
    (first : state.allocateFromCurrentPage size alignment = (allocation,after))
    (asks : ¬ (allocation.memory ≠ 0 ∨ after.backed = false)) (allocator : Allocator σ)
    (page : addNewOverflowPage allocator size alignment after s = .ok (r,same,s')) (refused : r.memory = 0) :
    allocate allocator size alignment state s = .ok (r,same,s') := by
  unfold allocate
  rw [first,if_neg some_data,if_neg (valid_call positive power),if_neg (by omega)]
  refine (if_neg asks).trans ?_
  rw [page,ok_bind]
  exact if_pos refused

theorem asked_granted (some_data : state.data ≠ 0) (positive : 0 < size) (power : isPowerOfTwo alignment = true)
    (first : state.allocateFromCurrentPage size alignment = (allocation,after))
    (asks : ¬ (allocation.memory ≠ 0 ∨ after.backed = false)) (allocator : Allocator σ)
    (page : addNewOverflowPage allocator size alignment after s = .ok (r,grown,s')) (granted : r.memory ≠ 0)
    (again : grown.allocateFromCurrentPage size alignment = (retry,last)) :
    allocate allocator size alignment state s = .ok (retry,last,s') := by
  unfold allocate
  rw [first,if_neg some_data,if_neg (valid_call positive power),if_neg (by omega)]
  refine (if_neg asks).trans ?_
  rw [page,ok_bind]
  refine (if_neg granted).trans ?_
  rw [again]
  rfl

theorem asked_cases (some_data : state.data ≠ 0) (positive : 0 < size) (power : isPowerOfTwo alignment = true)
    (first : state.allocateFromCurrentPage size alignment = (allocation,after)) (null : allocation.memory = 0)
    (backed : after.backed = true) (allocator : Allocator σ) (s : σ) :
    (allocator.alloc (pageBytes (after.pageSize size alignment)) maxAlign s = none ∧
        allocate allocator size alignment state s = .error .rejected) ∨
      ∃ r s', allocator.alloc (pageBytes (after.pageSize size alignment)) maxAlign s = some (r,s') ∧
        (r.memory = 0 → allocate allocator size alignment state s = .ok (r,after,s')) ∧
        (r.memory ≠ 0 → ∀ retry last,
          (after.pushPage ⟨r.memory,after.pageSize size alignment⟩).allocateFromCurrentPage size alignment = (retry,last) →
          allocate allocator size alignment state s = .ok (retry,last,s')) := by
  have asks : ¬ (allocation.memory ≠ 0 ∨ after.backed = false) := by
    rw [null,backed]
    simp
  rcases addNewOverflowPage_cases allocator s after with ⟨trapped,page⟩ | ⟨r,s',called,page⟩
  · exact .inl ⟨trapped,asked_trapped some_data positive power first asks allocator page⟩
  · refine .inr ⟨r,s',called,fun refused => ?_,fun granted retry last again => ?_⟩
    · rw [if_pos refused] at page
      exact asked_denied some_data positive power first asks allocator page refused
    · rw [if_neg granted] at page
      exact asked_granted some_data positive power first asks allocator page granted again

-- The calls that ask for a new page.
theorem asked_unchanged (size alignment : S64) (small : state.originalSize < 9223372036854775808)
    (some_data : state.data ≠ 0) (positive : 0 < size.val) (power : isPowerOfTwo alignment.val = true)
    (first : state.allocateFromCurrentPage size.val alignment.val = (allocation,after)) (null : allocation.memory = 0)
    (backed : after.backed = true) (original : after.originalSize = state.originalSize)
    (pages : after.overflowPages = state.overflowPages)
    (moved : after = state ∧ ¬ state.Wrapped size.val alignment.val ∨
      after ≠ state ∧ state.Wrapped size.val alignment.val) :
    Unchanged backing state s (allocate backing.allocator size.val alignment.val state s) ↔
      ∀ r s', backing.allocator.alloc (pageBytes (state.pageSize size.val alignment.val)) maxAlign s = some (r,s') →
        (r.memory = 0 → r.error ≠ .none → ¬ state.Wrapped size.val alignment.val) ∧
        (r.memory ≠ 0 → size.val + alignment.val < 9223372036854775808 ∨
          state.DefaultHolds size.val alignment.val r.memory) := by
  obtain ⟨k,exact_power⟩ := isPowerOfTwo_exact.mp power
  have unit : 0 < (2:Nat)^k := Nat.two_pow_pos k
  have sameSize : after.pageSize size.val alignment.val = state.pageSize size.val alignment.val := by
    unfold pageSize
    rw [original]
  obtain ⟨low,high,sums⟩ := pageSize_cases state small positive size.2.2 (by omega : 0 < alignment.val) alignment.2.2
  rcases asked_cases some_data positive power first null backed backing.allocator s with
    ⟨trapped,ends⟩ | ⟨r,s',called,denied,granted⟩
  · rw [sameSize] at trapped
    rw [ends]
    refine ⟨fun _ r s' called => ?_,fun _ r state' s' returned => ?_⟩
    · rw [trapped] at called
      cases called
    · cases returned
  rw [sameSize] at called granted
  have only : ∀ r' later, backing.allocator.alloc (pageBytes (state.pageSize size.val alignment.val)) maxAlign s =
      some (r',later) → r' = r := by
    intro r' later again
    rw [called] at again
    cases again
    rfl
  by_cases refused : r.memory = 0
  · have ends := denied refused
    constructor
    · intro unchanged r' later again
      rw [only r' later again]
      refine ⟨fun _ error wrapped => ?_,fun given => absurd refused given⟩
      have same := (unchanged r after s' ends error).1
      rcases moved with ⟨_,apart⟩ | ⟨changed,_⟩
      · exact apart wrapped
      · exact changed same
    · intro refundable r' state' later returned error
      rw [ends] at returned
      cases returned
      rcases moved with ⟨same,_⟩ | ⟨_,wrapped⟩
      · exact ⟨same,alloc_refused called refused⟩
      · exact absurd wrapped ((refundable r s' called).1 refused error)
  · have inside := alloc_granted called refused
    have extent := pageBytes_fits _ low high inside.1
    have room := pushed_room size.val alignment.val after r.memory (state.pageSize size.val alignment.val)
    cases retry : bump (add64 r.memory 16) (add64 (add64 r.memory 16) (toU64 (state.pageSize size.val alignment.val)))
        size.val alignment.val with
    | none =>
        rw [retry] at room
        have retried := granted refused _ _ (fromCurrentPage_none room)
        constructor
        · intro unchanged
          have same := (unchanged _ _ _ retried (by decide)).1
          refine absurd same (push_changes state ⟨r.memory,state.pageSize size.val alignment.val⟩ _ ?_)
          rw [← pages]
          rfl
        · intro refundable
          rcases sums with ⟨_,large⟩ | ⟨wide,default⟩
          · have holds := page_holds r.memory k exact_power alignment.2.2 positive _ large (by omega)
            rw [retry] at holds
            cases holds
          · rcases (refundable r s' called).2 refused with narrow | holds
            · omega
            · unfold DefaultHolds at holds
              rw [← default,retry] at holds
              cases holds
    | some result =>
        obtain ⟨aligned,next⟩ := result
        rw [retry] at room
        have retried := granted refused _ _ (fromCurrentPage_some room)
        refine ⟨fun _ r' later again => ?_,fun _ => unchanged_success backing retried⟩
        rw [only r' later again]
        refine ⟨fun null => absurd null refused,fun _ => ?_⟩
        rcases sums with ⟨narrow,_⟩ | ⟨_,default⟩
        · exact .inl narrow
        · right
          unfold DefaultHolds
          rw [← default,retry]
          rfl

-- ALLOCATE, in any state whose original size is an ssize.
theorem allocate_unchanged (size alignment : S64) (small : state.originalSize < 9223372036854775808) (s : σ) :
    Unchanged backing state s (allocate backing.allocator size.val alignment.val state s) ↔
      Refundable backing size.val alignment.val state s := by
  by_cases some_data : state.data = 0
  · have ends : allocate backing.allocator size.val alignment.val state s =
        .ok (failure .useOfUninitializedAllocator,state,s) := by
      unfold allocate
      exact if_pos some_data
    exact ⟨fun _ data => absurd some_data data,fun _ => unchanged_same backing ends⟩
  by_cases valid : 0 < size.val ∧ isPowerOfTwo alignment.val = true
  case neg =>
    refine ⟨fun _ _ positive power => absurd ⟨positive,power⟩ valid,fun _ => ?_⟩
    by_cases invalid : size.val < 0 ∨ isPowerOfTwo alignment.val = false
    · have ends : allocate backing.allocator size.val alignment.val state s = .ok (failure .invalidArgument,state,s) := by
        unfold allocate
        exact (if_neg some_data).trans (if_pos invalid)
      exact unchanged_same backing ends
    · have empty : size.val = 0 := by
        by_contra nonzero
        refine valid ⟨?_,?_⟩
        · have low : ¬ size.val < 0 := fun negative => invalid (.inl negative)
          omega
        · cases power : isPowerOfTwo alignment.val with
          | true => rfl
          | false => exact absurd (.inr power) invalid
      have ends : allocate backing.allocator size.val alignment.val state s = .ok (success 0,state,s) := by
        unfold allocate
        exact (if_neg some_data).trans ((if_neg invalid).trans (if_pos empty))
      exact unchanged_same backing ends
  obtain ⟨positive,power⟩ := valid
  cases room : bump state.currentPoint state.limit size.val alignment.val with
  | none =>
      have first := fromCurrentPage_none room
      have nowhere : ¬ state.Wrapped size.val alignment.val := by
        rintro ⟨next,wrapped⟩
        rw [room] at wrapped
        cases wrapped
      have full : state.NoRoom size.val alignment.val := by
        intro aligned next fits
        rw [room] at fits
        cases fits
      cases backed : state.backed with
      | false =>
          have ends := allocate_first some_data positive power first (.inr backed) backing.allocator (s:=s)
          refine ⟨fun _ _ _ _ _ wanted => ?_,fun _ => unchanged_same backing ends⟩
          rw [backed] at wanted
          cases wanted
      | true =>
          have exact_calls := asked_unchanged backing size alignment small some_data positive power first rfl backed rfl rfl
            (.inl ⟨rfl,nowhere⟩) (s:=s)
          rw [exact_calls]
          exact ⟨fun calls _ _ _ _ _ => calls,fun refundable => refundable some_data positive power full backed⟩
  | some result =>
      obtain ⟨aligned,next⟩ := result
      have first := fromCurrentPage_some room
      obtain ⟨backing_kept,original,pages⟩ := occupy_backed state next
      by_cases null : aligned = 0
      · subst null
        have wraps : state.Wrapped size.val alignment.val := ⟨next,room⟩
        have full : state.NoRoom size.val alignment.val := by
          intro aligned later fits
          rw [room] at fits
          cases fits
          rfl
        cases backed : state.backed with
        | false =>
            have ends := allocate_first some_data positive power first (.inr (backing_kept.trans backed)) backing.allocator
              (s:=s)
            refine ⟨fun _ _ _ _ _ wanted => ?_,fun _ => unchanged_success backing ends⟩
            rw [backed] at wanted
            cases wanted
        | true =>
            have exact_calls := asked_unchanged backing size alignment small some_data positive power first rfl
              (backing_kept.trans backed) original pages
              (.inr ⟨wrapped_changes size alignment positive power room,wraps⟩) (s:=s)
            rw [exact_calls]
            exact ⟨fun calls _ _ _ _ _ => calls,fun refundable => refundable some_data positive power full backed⟩
      · have ends := allocate_first some_data positive power first (.inl null) backing.allocator (s:=s)
        exact ⟨fun _ _ _ _ full => absurd (full aligned next room) null,fun _ => unchanged_success backing ends⟩

-- RESIZE asks for a page only for a null pointer.
theorem resize_null (size alignment oldSize : Int) (allocator : Allocator σ) (s : σ)
    (valid : ¬ (size < 0 ∨ isPowerOfTwo alignment = false)) (grows : ¬ (size = 0 ∨ size ≤ oldSize)) :
    resize allocator size alignment oldSize 0 state s = allocate allocator size alignment state s := by
  have still : grow state.currentPoint state.limit 0 oldSize size = none := if_neg fun known => known.1 rfl
  unfold resize
  rw [if_neg valid,if_neg (fun known => known.1 rfl),if_neg grows,still]
  exact if_pos rfl

theorem resize_unchanged (size alignment oldSize : S64) (oldMemory : Nat) (small : state.originalSize < 9223372036854775808)
    (s : σ) :
    Unchanged backing state s (resize backing.allocator size.val alignment.val oldSize.val oldMemory state s) ↔
      (oldMemory = 0 → oldSize.val < size.val → Refundable backing size.val alignment.val state s) := by
  by_cases invalid : size.val < 0 ∨ isPowerOfTwo alignment.val = false
  · have ends : resize backing.allocator size.val alignment.val oldSize.val oldMemory state s =
        .ok (failure .invalidArgument,state,s) := by
      unfold resize
      exact if_pos invalid
    refine ⟨fun _ _ _ _ positive power => absurd invalid (valid_call positive power),fun _ => unchanged_same backing ends⟩
  by_cases misaligned : oldMemory ≠ 0 ∧ oldMemory % toU64 alignment.val ≠ 0
  · have ends : resize backing.allocator size.val alignment.val oldSize.val oldMemory state s =
        .ok (failure .modeNotImplemented,state,s) := by
      unfold resize
      exact (if_neg invalid).trans (if_pos misaligned)
    exact ⟨fun _ null => absurd null misaligned.1,fun _ => unchanged_same backing ends⟩
  by_cases shrinks : size.val = 0 ∨ size.val ≤ oldSize.val
  · have ends : resize backing.allocator size.val alignment.val oldSize.val oldMemory state s =
        .ok (success (if size.val = 0 then 0 else oldMemory),state,s) := by
      unfold resize
      exact (if_neg invalid).trans ((if_neg misaligned).trans (if_pos shrinks))
    refine ⟨fun _ _ larger _ positive => ?_,fun _ => unchanged_success backing ends⟩
    omega
  by_cases null : oldMemory = 0
  · subst null
    rw [resize_null size.val alignment.val oldSize.val backing.allocator s invalid shrinks,
      allocate_unchanged backing size alignment small s]
    exact ⟨fun refundable _ _ => refundable,fun refundable => refundable rfl (by omega)⟩
  · refine ⟨fun _ none => absurd none null,fun _ => ?_⟩
    cases grown : grow state.currentPoint state.limit oldMemory oldSize.val size.val with
    | some next =>
        have ends : resize backing.allocator size.val alignment.val oldSize.val oldMemory state s =
            .ok (success oldMemory,state.extend oldSize.val size.val next,s) := by
          unfold resize
          rw [if_neg invalid,if_neg misaligned,if_neg shrinks,grown]
        exact unchanged_success backing ends
    | none =>
        have ends : resize backing.allocator size.val alignment.val oldSize.val oldMemory state s =
            .ok (failure .modeNotImplemented,state,s) := by
          unfold resize
          rw [if_neg invalid,if_neg misaligned,if_neg shrinks,grown]
          exact if_neg null
        exact unchanged_same backing ends

end Allocate

section Original
variable {allocator : Allocator σ} {state : TemporaryState} {size alignment : Int}

theorem fromCurrentPage_original (first : state.allocateFromCurrentPage size alignment = (r,after)) :
    after.originalSize = state.originalSize := by
  cases room : bump state.currentPoint state.limit size alignment with
  | none =>
      rw [fromCurrentPage_none room] at first
      cases first
      rfl
  | some result =>
      obtain ⟨aligned,next⟩ := result
      rw [fromCurrentPage_some room] at first
      cases first
      exact (occupy_backed state next).2.1

theorem allocate_original (called : allocate allocator size alignment state s = .ok (r,after,s')) :
    after.originalSize = state.originalSize := by
  by_cases some_data : state.data = 0
  · have ends : allocate allocator size alignment state s = .ok (failure .useOfUninitializedAllocator,state,s) := by
      unfold allocate
      exact if_pos some_data
    rw [ends] at called
    cases called
    rfl
  by_cases invalid : size < 0 ∨ isPowerOfTwo alignment = false
  · have ends : allocate allocator size alignment state s = .ok (failure .invalidArgument,state,s) := by
      unfold allocate
      exact (if_neg some_data).trans (if_pos invalid)
    rw [ends] at called
    cases called
    rfl
  by_cases empty : size = 0
  · have ends : allocate allocator size alignment state s = .ok (success 0,state,s) := by
      unfold allocate
      exact (if_neg some_data).trans ((if_neg invalid).trans (if_pos empty))
    rw [ends] at called
    cases called
    rfl
  have positive : 0 < size := by
    have low : ¬ size < 0 := fun negative => invalid (.inl negative)
    omega
  have power : isPowerOfTwo alignment = true := by
    cases power : isPowerOfTwo alignment with
    | true => rfl
    | false => exact absurd (.inr power) invalid
  cases first : state.allocateFromCurrentPage size alignment with
  | mk allocation occupied =>
  have kept := fromCurrentPage_original first
  by_cases ends : allocation.memory ≠ 0 ∨ occupied.backed = false
  · rw [allocate_first some_data positive power first ends allocator] at called
    cases called
    exact kept
  · rw [not_or,not_not,Bool.not_eq_false] at ends
    rcases asked_cases some_data positive power first ends.1 ends.2 allocator s with
      ⟨_,trapped⟩ | ⟨page,left,_,denied,granted⟩
    · rw [trapped] at called
      cases called
    · by_cases refused : page.memory = 0
      · rw [denied refused] at called
        cases called
        exact kept
      · cases again : (occupied.pushPage ⟨page.memory,occupied.pageSize size alignment⟩).allocateFromCurrentPage
            size alignment with
        | mk retry last =>
            rw [granted refused retry last again] at called
            cases called
            exact (fromCurrentPage_original again).trans kept

theorem resize_original (called : resize allocator size alignment oldSize oldMemory state s = .ok (r,after,s')) :
    after.originalSize = state.originalSize := by
  by_cases invalid : size < 0 ∨ isPowerOfTwo alignment = false
  · unfold resize at called
    rw [if_pos invalid] at called
    cases called
    rfl
  by_cases misaligned : oldMemory ≠ 0 ∧ oldMemory % toU64 alignment ≠ 0
  · unfold resize at called
    rw [if_neg invalid,if_pos misaligned] at called
    cases called
    rfl
  by_cases shrinks : size = 0 ∨ size ≤ oldSize
  · unfold resize at called
    rw [if_neg invalid,if_neg misaligned,if_pos shrinks] at called
    cases called
    rfl
  by_cases null : oldMemory = 0
  · subst null
    rw [resize_null size alignment oldSize allocator s invalid shrinks] at called
    exact allocate_original called
  · cases grown : grow state.currentPoint state.limit oldMemory oldSize size with
    | some next =>
        unfold resize at called
        rw [if_neg invalid,if_neg misaligned,if_neg shrinks,grown] at called
        cases called
        unfold extend updateHighWaterMark
        split <;> rfl
    | none =>
        unfold resize at called
        rw [if_neg invalid,if_neg misaligned,if_neg shrinks,grown] at called
        have ends := (if_neg null).symm.trans called
        cases ends
        rfl

theorem freeOverflowPages_original (freed : freeOverflowPages allocator target state s = .ok (after,s')) :
    after.originalSize = state.originalSize := by
  unfold freeOverflowPages at freed
  cases pages : freePages allocator target state.overflowPages s with
  | error trap =>
      rw [pages] at freed
      cases freed
  | ok result =>
      rw [pages,ok_bind] at freed
      cases freed
      rfl

theorem rewind_original (called : rewind allocator markPoint state s = .ok (after,s')) :
    after.originalSize = state.originalSize := by
  unfold rewind at called
  cases freed : freeOverflowPages allocator markPoint.topOverflowPage state s with
  | error trap =>
      rw [freed] at called
      cases called
  | ok result =>
      obtain ⟨rest,left⟩ := result
      rw [freed,ok_bind] at called
      cases called
      have kept := freeOverflowPages_original freed
      exact kept

theorem reset_original (called : reset allocator state s = .ok (after,s')) : after.originalSize = state.originalSize := by
  unfold reset at called
  cases freed : freeOverflowPages allocator 0 state s with
  | error trap =>
      rw [freed] at called
      cases called
  | ok result =>
      obtain ⟨rest,left⟩ := result
      rw [freed,ok_bind] at called
      cases called
      have kept := freeOverflowPages_original freed
      exact kept

theorem demand_passes {condition : Bool} {rest : Except Trap α}
    (made : (demand condition >>= fun _ => rest) = .ok value) : condition = true ∧ rest = .ok value := by
  unfold demand at made
  cases condition with
  | false => cases made
  | true => exact ⟨rfl,made⟩

theorem reachable_original {backing : Backing σ} (reachable : Reachable backing state s) :
    state.originalSize < 9223372036854775808 := by
  induction reachable with
  | overMemory size made =>
      unfold overMemory at made
      obtain ⟨_,made⟩ := demand_passes made
      obtain ⟨_,made⟩ := demand_passes made
      cases made
      exact size.2.2
  | backedBy size made =>
      rename_i before state s
      unfold backedBy at made
      obtain ⟨_,made⟩ := demand_passes made
      cases run : underneath (backing.allocator.alloc size.val maxAlign before) with
      | error trap =>
          rw [run] at made
          cases made
      | ok result =>
          obtain ⟨allocation,left⟩ := result
          rw [run,ok_bind] at made
          obtain ⟨_,made⟩ := demand_passes made
          obtain ⟨_,made⟩ := demand_passes made
          cases made
          exact size.2.2
  | elsewhere _ ih => exact ih
  | allocate _ _ _ called ih =>
      rw [allocate_original called]
      exact ih
  | resize _ _ _ _ called ih =>
      rw [resize_original called]
      exact ih
  | rewind _ called ih =>
      rw [rewind_original called]
      exact ih
  | reset _ called ih =>
      rw [reset_original called]
      exact ih

end Original

-- Failed calls change nothing where a page that is asked for is refused cleanly or large enough.
theorem failed_calls_exact (backing : Backing σ) (t : {t : TemporaryState × σ // Reachable backing t.1 t.2})
    (size alignment oldSize : S64) (oldMemory : Nat) :
    (Unchanged backing t.1.1 t.1.2 (allocate backing.allocator size.val alignment.val t.1.1 t.1.2) ↔
      Refundable backing size.val alignment.val t.1.1 t.1.2) ∧
    (Unchanged backing t.1.1 t.1.2 (resize backing.allocator size.val alignment.val oldSize.val oldMemory t.1.1 t.1.2) ↔
      (oldMemory = 0 → oldSize.val < size.val → Refundable backing size.val alignment.val t.1.1 t.1.2)) :=
  ⟨allocate_unchanged backing size alignment (reachable_original t.2) t.1.2,
    resize_unchanged backing size alignment oldSize oldMemory (reachable_original t.2) t.1.2⟩

-- A backing allocator that has one address for everything below 4 GiB.
def onePlace : Backing (List Nat) where
  allocator := {
    procAllocate := fun size _ held =>
      if size < 4294967296 then some (success 1048576,1048576 :: held) else some (failure .outOfMemory,held)
    procResize := fun _ _ _ _ held => some (failure .modeNotImplemented,held)
    procFree := fun _ _ _ held => some (success 0,held)
    features := AllocatorFeatures.none
    memcpy := fun _ _ _ held => held }
  held := id
  refused := by
    intro size alignment s r s' called null
    dsimp only at called
    split at called
    · cases called
      cases null
    · cases called
      rfl
  granted := by
    intro size alignment s r s' called given
    dsimp only at called
    split at called
    · rename_i small
      cases called
      refine ⟨rfl,?_⟩
      show (1048576 : Int) + size < 18446744073709551616
      omega
    · cases called
      exact absurd rfl given

def sixtyFour : TemporaryState := ⟨1048576,64,1048576,64,0,0,0,[],true⟩

-- size + alignment overflows, a page of default size is pushed and does not hold the size.
theorem page_kept_on_failure :
    Reachable onePlace sixtyFour [1048576] ∧
    ¬ Unchanged onePlace sixtyFour [1048576]
      (allocate onePlace.allocator 9223372036854775807 16 sixtyFour [1048576]) := by
  refine ⟨.backedBy ⟨64,by decide⟩ rfl,fun unchanged => ?_⟩
  have refundable := (allocate_unchanged onePlace ⟨9223372036854775807,by decide⟩ ⟨16,by decide⟩
    (show sixtyFour.originalSize < 9223372036854775808 by decide) [1048576]).mp unchanged
  have full : sixtyFour.NoRoom 9223372036854775807 16 := by
    intro aligned next fits
    have none_fits : bump sixtyFour.currentPoint sixtyFour.limit 9223372036854775807 16 = none := by decide
    rw [none_fits] at fits
    cases fits
  have asked := refundable (by decide) (by decide) (by decide) full rfl (success 1048576) [1048576,1048576] (by decide)
  rcases asked.2 (by decide) with narrow | holds
  · exact absurd narrow (by decide)
  · have small : ¬ sixtyFour.DefaultHolds 9223372036854775807 16 1048576 := by
      unfold DefaultHolds
      decide
    exact small holds

end TemporaryState
end BumpAllocators
