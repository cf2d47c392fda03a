import Gameos.AllocatorCalls
import Mathlib.Data.List.Pairwise

-- What an allocator promises: which blocks are live behind each request. It may
-- refuse any of them.
namespace AllocatorContract
open MachineWords AllocatorTypes AllocatorCalls

structure Block where
  pointer : Nat
  size : Int
deriving DecidableEq, Repr

def Apart (a b : Block) : Prop := a.pointer + a.size ≤ b.pointer ∨ b.pointer + b.size ≤ a.pointer

structure Fresh (block : Block) (alignment : Int) (blocks : List Block) : Prop where
  notNull : block.pointer ≠ 0
  positive : 0 < block.size
  power : isPowerOfTwo alignment = true
  aligned : alignment ∣ block.pointer
  inside : block.pointer + block.size < 2^64
  apart : ∀ other ∈ blocks, Apart block other

-- A block more, or none; for some bytes that is an error.
def Granted (size alignment : Int) (before : List Block) (result : AllocatorResult) (after : List Block) : Prop :=
  (result.memory = 0 ∧ (0 < size → result.error ≠ .none) ∧ after.Perm before) ∨
  (result.error = .none ∧ Fresh ⟨result.memory,size⟩ alignment before ∧ after.Perm (⟨result.memory,size⟩ :: before))

-- A block less, or the same ones.
def Returned (block : Block) (before : List Block) (error : AllocatorError) (after : List Block) : Prop :=
  (error = .none ∧ after.Perm (before.erase block)) ∨ (error ≠ .none ∧ after.Perm before)

-- One block for another; to no size it is a block less, from null a block more.
inductive Resized (old : Block) (size alignment : Int) (before : List Block) (result : AllocatorResult)
    (after : List Block) : Prop where
  | refused : result.error ≠ .none → after.Perm before → Resized old size alignment before result after
  | granted : old.pointer = 0 → Granted size alignment before result after → Resized old size alignment before result after
  | returned : old.pointer ≠ 0 → size = 0 → result = success 0 → after.Perm (before.erase old) →
      Resized old size alignment before result after
  | replaced : old.pointer ≠ 0 → result.error = .none → Fresh ⟨result.memory,size⟩ alignment (before.erase old) →
      after.Perm (⟨result.memory,size⟩ :: before.erase old) → Resized old size alignment before result after

structure Contract (allocator : Allocator σ) (live : σ → List Block) : Prop where
  apart : ∀ s, (live s).Pairwise Apart
  positive : ∀ s, ∀ block ∈ live s, block.pointer ≠ 0 ∧ 0 < block.size
  allocate : ∀ size alignment s, ∃ result s', allocator.procAllocate size alignment s = some (result,s') ∧
    Granted size alignment (live s) result (live s')
  free : ∀ block alignment s, block ∈ live s → ∃ result s',
    allocator.procFree alignment block.size block.pointer s = some (result,s') ∧
      Returned block (live s) result.error (live s')
  freeNull : ∀ size alignment s, ∃ s', allocator.procFree alignment size 0 s = some (success 0,s') ∧
    (live s').Perm (live s)
  resize : ∀ old size alignment s, old.pointer = 0 ∨ old ∈ live s → ∃ result s',
    allocator.procResize size alignment old.size old.pointer s = some (result,s') ∧
      Resized old size alignment (live s) result (live s')
  memcpy : ∀ destination source length s, live (allocator.memcpy destination source length s) = live s

-- An allocator that frees, and never refuses to.
structure Frees (allocator : Allocator σ) (live : σ → List Block) : Prop where
  feature : hasFlag allocator.features AllocatorFeatures.free = true
  exact : hasFlag allocator.features AllocatorFeatures.resizeShrinkNoOp = false
  accepts : ∀ (block : Block) alignment s result s', block ∈ live s →
    allocator.procFree alignment block.size block.pointer s = some (result,s') → result.error = .none

section Rules
variable {allocator : Allocator σ} {live : σ → List Block}

theorem apart_pointers {a b : Block} (apart : Apart a b) (first : 0 < a.size) (second : 0 < b.size) :
    a.pointer ≠ b.pointer := by
  unfold Apart at apart
  omega

instance : Std.Symm Apart := ⟨fun _ _ apart => Or.symm apart⟩

theorem Fresh.another {block : Block} (fresh : Fresh block alignment blocks) (positive : ∀ other ∈ blocks, 0 < other.size) :
    ∀ other ∈ blocks, other.pointer ≠ block.pointer := fun other here =>
  (apart_pointers (fresh.apart other here) fresh.positive (positive other here)).symm

-- The pointer names the block.
theorem Contract.unique (contract : Contract allocator live) {a b : Block} (first : a ∈ live s) (second : b ∈ live s)
    (same : a.pointer = b.pointer) : a = b := by
  by_contra different
  have apart := (contract.apart s).forall first second different
  exact apart_pointers apart (contract.positive s a first).2 (contract.positive s b second).2 same

theorem alloc_granted (contract : Contract allocator live) (size alignment : Int) (s : σ) :
    ∃ result s', allocator.alloc size alignment s = some (result,s') ∧
      Granted size alignment (live s) result (live s') := by
  unfold Allocator.alloc
  split
  · exact ⟨_,_,rfl,.inl ⟨rfl,fun _ => by decide,.refl _⟩⟩
  · split
    · exact ⟨_,_,rfl,.inl ⟨rfl,fun _ => by decide,.refl _⟩⟩
    · exact contract.allocate size alignment s

theorem free_returned (contract : Contract allocator live) (alignment : Int) (here : block ∈ live s) :
    ∃ error s', allocator.free block.pointer block.size alignment s = some (error,s') ∧
      Returned block (live s) error (live s') := by
  unfold Allocator.free
  split
  · exact ⟨_,_,rfl,.inr ⟨by decide,.refl _⟩⟩
  · obtain ⟨result,s',freed,returned⟩ := contract.free block alignment s here
    rw [freed]
    exact ⟨_,_,rfl,returned⟩

-- What is fresh among blocks is none of them.
theorem erase_after {more : Block} (fresh : Fresh more alignment blocks) (positive : ∀ other ∈ blocks, 0 < other.size)
    (here : old ∈ blocks) : (more :: blocks).erase old = more :: blocks.erase old := by
  refine List.erase_cons_tail ?_
  have other := fresh.another positive old here
  intro same
  rw [beq_iff_eq] at same
  exact other (by rw [same])

theorem Fresh.fewer (fresh : Fresh new alignment blocks) (fewer : ∀ other ∈ blocks', other ∈ blocks) :
    Fresh new alignment blocks' :=
  ⟨fresh.notNull,fresh.positive,fresh.power,fresh.aligned,fresh.inside,fun other here => fresh.apart other (fewer other here)⟩

theorem free_exact (contract : Contract allocator live) (frees : Frees allocator live) (block : Block)
    (usable : 0 ≤ alignment) (here : block ∈ live s) : ∃ s', allocator.free block.pointer block.size alignment s = some (.none,s') ∧
      (live s').Perm ((live s).erase block) := by
  have positive := (contract.positive s block here).2
  obtain ⟨result,s',freed,returned⟩ := contract.free block alignment s here
  have fine := frees.accepts block alignment s result s' here freed
  obtain ⟨_,fewer⟩ | ⟨refused,_⟩ := returned
  · refine ⟨s',?_,fewer⟩
    rw [Allocator.free,if_neg (by omega),freed,← fine]
    rfl
  · exact absurd fine refused

theorem power_positive (power : isPowerOfTwo alignment = true) : 0 < alignment := by
  obtain ⟨k,rfl⟩ := isPowerOfTwo_exact.mp power
  have positive : 0 < 2^k := Nat.two_pow_pos k
  omega

theorem Fresh.perm (fresh : Fresh more alignment blocks) (same : blocks'.Perm blocks) : Fresh more alignment blocks' :=
  fresh.fewer fun _ here => same.subset here

theorem Resized.kept (resized : Resized old size alignment before result after) (failed : result.error ≠ .none) :
    after.Perm before := by
  cases resized with
  | refused _ same => exact same
  | granted _ granted =>
      obtain ⟨_,_,same⟩ | ⟨fine,_⟩ := granted
      · exact same
      · exact absurd fine failed
  | returned _ _ fine => exact absurd (by rw [fine]; rfl) failed
  | replaced _ fine => exact absurd fine failed

theorem Resized.after_perm (resized : Resized old size alignment before result after) (same : before.Perm before') :
    Resized old size alignment before' result after := by
  cases resized with
  | refused failed kept => exact .refused failed (kept.trans same)
  | granted null granted =>
      refine .granted null ?_
      obtain ⟨none,fails,kept⟩ | ⟨fine,fresh,more⟩ := granted
      · exact .inl ⟨none,fails,kept.trans same⟩
      · exact .inr ⟨fine,fresh.perm same.symm,more.trans (same.cons _)⟩
  | returned notNull nothing fine fewer => exact .returned notNull nothing fine (fewer.trans (same.erase _))
  | replaced notNull fine fresh more =>
      have less := same.erase old
      exact .replaced notNull fine (fresh.perm less.symm) (more.trans (less.cons _))

theorem replace_resized (contract : Contract allocator live) (frees : Frees allocator live) {old : Block}
    (known : old.pointer = 0 ∨ old ∈ before) (positive : ∀ other ∈ before, other.pointer ≠ 0 ∧ 0 < other.size)
    (usable : 0 ≤ old.size ∧ 0 ≤ alignment) (fine : result.error = .none)
    (fresh : Fresh ⟨result.memory,size⟩ alignment before) (more : (live s).Perm (⟨result.memory,size⟩ :: before)) :
    ∃ result' s', allocator.replace old.pointer old.size size alignment result s = some (result',s') ∧
      Resized old size alignment before result' (live s') := by
  rw [Allocator.replace,frees.feature,if_neg (by decide)]
  obtain null | here := known
  · obtain ⟨s',freed,same⟩ := contract.freeNull old.size alignment s
    rw [null,Allocator.free,if_neg (by omega),freed]
    exact ⟨_,_,rfl,.granted null (.inr ⟨fine,fresh,same.trans more⟩)⟩
  · have among : old ∈ live s := more.symm.subset (List.mem_cons_of_mem _ here)
    obtain ⟨s',freed,fewer⟩ := free_exact contract frees old usable.2 among
    have left := (fewer.trans (more.erase old)).trans (.of_eq (erase_after fresh (fun o m => (positive o m).2) here))
    rw [freed]
    refine ⟨_,_,rfl,.replaced (positive old here).1 fine (fresh.fewer fun other => List.mem_of_mem_erase) left⟩

-- realloc keeps what RESIZE promises, also where it has to move the block.
theorem moveBlock_resized (contract : Contract allocator live) (frees : Frees allocator live) (old : Block)
    (known : old.pointer = 0 ∨ old ∈ live s) (usable : 0 ≤ old.size ∧ 0 ≤ size ∧ 0 ≤ alignment)
    (something : ¬ (old.pointer = 0 ∧ size = 0)) (direct : AllocatorResult) :
    ∃ result s', allocator.moveBlock old.pointer old.size size alignment direct s = some (result,s') ∧
      Resized old size alignment (live s) result (live s') := by
  rw [Allocator.moveBlock,frees.feature,frees.exact]
  by_cases odd : old.pointer ≠ 0 ∧ old.size = 0
  · rw [if_pos odd]
    exact ⟨_,_,rfl,.refused (by decide) (.refl _)⟩
  · rw [if_neg odd]
    by_cases nothing : size = 0
    · rw [if_pos nothing,if_neg (by decide)]
      obtain null | here := known
      · exact absurd ⟨null,nothing⟩ something
      · obtain ⟨s',freed,fewer⟩ := free_exact contract frees old usable.2.2 here
        rw [freed]
        exact ⟨_,_,rfl,.returned (contract.positive s old here).1 nothing rfl fewer⟩
    · rw [if_neg nothing,if_neg (by simp)]
      obtain ⟨result,s₁,allocated,granted⟩ := alloc_granted contract size alignment s
      rw [allocated]
      dsimp only
      obtain ⟨none,fails,same⟩ | ⟨fine,fresh,more⟩ := granted
      · rw [if_pos none]
        exact ⟨_,_,rfl,.refused (fails (by omega)) same⟩
      · rw [if_neg fresh.notNull]
        generalize copied : (if old.pointer ≠ 0 ∧ 0 < (if old.size < size then old.size else size) then
          allocator.memcpy result.memory old.pointer (if old.size < size then old.size else size) s₁ else s₁) = s₂
        have kept : live s₂ = live s₁ := by rw [← copied,apply_ite live,contract.memcpy,ite_self]
        rw [← kept] at more
        exact replace_resized contract frees known (contract.positive s) ⟨usable.1,usable.2.2⟩ fine fresh more

theorem realloc_resized (contract : Contract allocator live) (frees : Frees allocator live) (old : Block)
    (known : old.pointer = 0 ∨ old ∈ live s) (size alignment : Int) :
    ∃ result s', allocator.realloc old.pointer old.size size alignment s = some (result,s') ∧
      Resized old size alignment (live s) result (live s') := by
  unfold Allocator.realloc
  split
  · exact ⟨_,_,rfl,.refused (by decide) (.refl _)⟩
  · rename_i usable
    split
    · rename_i null
      exact ⟨_,_,rfl,.granted null.1 (.inl ⟨rfl,fun some => by omega,.refl _⟩)⟩
    · rename_i something
      obtain ⟨direct,s₁,resized,spec⟩ := contract.resize old size alignment s known
      rw [resized]
      dsimp only
      split
      · exact ⟨_,_,rfl,spec⟩
      · rename_i missing
        have kept := spec.kept (by rw [not_not] at missing; rw [missing]; decide)
        have bounds : 0 ≤ old.size ∧ 0 ≤ size ∧ 0 ≤ alignment := by omega
        have known' : old.pointer = 0 ∨ old ∈ live s₁ := known.imp_right fun here => kept.symm.subset here
        obtain ⟨result,s',moved,spec'⟩ := moveBlock_resized contract frees old known' bounds something direct
        exact ⟨result,s',moved,spec'.after_perm kept⟩

end Rules

section Shelves

-- An allocator with a place of 2^32 bytes for each block, which grants as many
-- requests as its budget says and takes every block back.
structure Shelf where
  blocks : List Block
  places : Nat
  budget : Nat
  placed : ∀ block ∈ blocks, 0 < block.size ∧ block.size ≤ 2^32 ∧ ∃ place < places, block.pointer = (place + 1) * 2^32
  apart : blocks.Pairwise Apart

namespace Shelf

def empty (budget : Nat) : Shelf := ⟨[],0,budget,(fun _ here => nomatch here),.nil⟩

theorem pushed_apart (shelf : Shelf) (size : Int) :
    ∀ other ∈ shelf.blocks, Apart ⟨(shelf.places + 1) * 2^32,size⟩ other := by
  intro other here
  obtain ⟨_,fits,place,below,pointer⟩ := shelf.placed other here
  refine .inr ?_
  rw [pointer]
  have step : (place + 1) * 2^32 + 2^32 ≤ (shelf.places + 1) * 2^32 := by
    rw [← Nat.succ_mul]
    exact Nat.mul_le_mul_right _ (by omega)
  dsimp only
  omega

def push (shelf : Shelf) (size : Int) (some : 0 < size) (small : size ≤ 2^32) : Shelf where
  blocks := ⟨(shelf.places + 1) * 2^32,size⟩ :: shelf.blocks
  places := shelf.places + 1
  budget := shelf.budget - 1
  placed := by
    intro block here
    rcases List.mem_cons.mp here with rfl | here
    · exact ⟨some,small,shelf.places,Nat.lt_succ_self _,rfl⟩
    · obtain ⟨positive,fits,place,below,pointer⟩ := shelf.placed block here
      exact ⟨positive,fits,place,Nat.lt_succ_of_lt below,pointer⟩
  apart := List.pairwise_cons.mpr ⟨shelf.pushed_apart size,shelf.apart⟩

def remove (shelf : Shelf) (block : Block) : Shelf where
  blocks := shelf.blocks.erase block
  places := shelf.places
  budget := shelf.budget
  placed := fun other here => shelf.placed other (List.mem_of_mem_erase here)
  apart := shelf.apart.sublist List.erase_sublist

def allocate (size alignment : Int) (shelf : Shelf) : AllocatorResult × Shelf :=
  if isPowerOfTwo alignment = false then (failure .invalidArgument,shelf)
  else if fits : 0 < size ∧ size ≤ 2^32 ∧ alignment ≤ 2^32 ∧ shelf.places < 2^31 ∧ 0 < shelf.budget then
    (success ((shelf.places + 1) * 2^32),shelf.push size fits.1 fits.2.1)
  else if size = 0 then (success 0,shelf)
  else (failure .outOfMemory,shelf)

def free (size : Int) (pointer : Nat) (shelf : Shelf) : AllocatorResult × Shelf :=
  if pointer = 0 then (success 0,shelf)
  else if (⟨pointer,size⟩ : Block) ∈ shelf.blocks then (success 0,shelf.remove ⟨pointer,size⟩)
  else (failure .invalidPointer,shelf)

end Shelf

def shelves : Allocator Shelf where
  procAllocate := fun size alignment shelf => some (shelf.allocate size alignment)
  procResize := fun _ _ _ _ shelf => some (failure .modeNotImplemented,shelf)
  procFree := fun _ size pointer shelf => some (shelf.free size pointer)
  features := AllocatorFeatures.free
  memcpy := fun _ _ _ shelf => shelf

theorem power_divides (power : isPowerOfTwo alignment = true) (small : alignment ≤ 2^32) (place : Nat) :
    alignment ∣ ((place * 2^32 : Nat) : Int) := by
  obtain ⟨k,rfl⟩ := isPowerOfTwo_exact.mp power
  have exponent : k ≤ 32 := by
    by_contra large
    have below : (2:Nat)^33 ≤ 2^k := Nat.pow_le_pow_right (by decide) (by omega)
    omega
  exact Int.natCast_dvd_natCast.mpr ((pow_dvd_pow 2 exponent).trans (Nat.dvd_mul_left _ _))

theorem shelf_granted (size alignment : Int) (shelf : Shelf) :
    Granted size alignment shelf.blocks (shelf.allocate size alignment).1 (shelf.allocate size alignment).2.blocks := by
  unfold Shelf.allocate
  split
  · exact .inl ⟨rfl,(fun _ wrong => nomatch wrong),.refl _⟩
  · rename_i power
    split
    · rename_i fits
      refine .inr ⟨rfl,⟨?_,fits.1,by simpa using power,?_,?_,shelf.pushed_apart size⟩,.refl _⟩
      · show (shelf.places + 1) * 2^32 ≠ 0
        omega
      · exact power_divides (by simpa using power) fits.2.2.1 _
      · show (((shelf.places + 1) * 2^32 : Nat) : Int) + size < 2^64
        omega
    · split
      · exact .inl ⟨rfl,fun some => by omega,.refl _⟩
      · exact .inl ⟨rfl,(fun _ wrong => nomatch wrong),.refl _⟩

theorem shelves_contract : Contract shelves Shelf.blocks where
  apart := Shelf.apart
  positive := by
    intro shelf block here
    obtain ⟨positive,_,place,_,pointer⟩ := shelf.placed block here
    exact ⟨by rw [pointer]; omega,positive⟩
  allocate := fun size alignment shelf => ⟨_,_,rfl,shelf_granted size alignment shelf⟩
  free := by
    intro block alignment shelf here
    obtain ⟨_,_,place,_,pointer⟩ := shelf.placed block here
    have notNull : block.pointer ≠ 0 := by rw [pointer]; omega
    refine ⟨success 0,shelf.remove block,?_,.inl ⟨rfl,.refl _⟩⟩
    show some (shelf.free block.size block.pointer) = _
    rw [Shelf.free,if_neg notNull,if_pos here]
  freeNull := fun size alignment shelf => ⟨shelf,rfl,.refl _⟩
  resize := fun old size alignment shelf known => ⟨_,_,rfl,.refused (by decide) (.refl _)⟩
  memcpy := fun destination source length shelf => rfl

theorem shelves_free : Frees shelves Shelf.blocks where
  feature := by decide
  exact := by decide
  accepts := by
    intro block alignment shelf result shelf' here freed
    obtain ⟨_,_,place,_,pointer⟩ := shelf.placed block here
    have notNull : block.pointer ≠ 0 := by rw [pointer]; omega
    have taken : some (shelf.free block.size block.pointer) = some (result,shelf') := freed
    rw [Shelf.free,if_neg notNull,if_pos here] at taken
    cases taken
    rfl

end Shelves

end AllocatorContract
