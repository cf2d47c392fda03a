import Gameos.DebugAllocator

-- An allocator as one of its clients sees it: the blocks it has lent to that client,
-- and what the client asked of it.
namespace AllocatorLending
open MachineWords AllocatorTypes AllocatorCalls AllocatorContract

-- It never refuses a block that it has lent. The free is the one of a caller who does
-- not pass an alignment.
structure Lender (σ : Type) where
  allocator : Allocator σ
  live : σ → List Block
  valid : σ → Prop
  apart : valid s → (live s).Pairwise Apart
  sized : valid s → ∀ block ∈ live s, block.pointer ≠ 0 ∧ 0 < block.size
  lends : valid s → ∀ size alignment, ∃ r s', allocator.alloc size alignment s = some (r,s') ∧ valid s' ∧
    Granted size alignment (live s) r (live s')
  takes : valid s → block ∈ live s → ∃ s', allocator.free block.pointer block.size 0 s = some (.none,s') ∧ valid s' ∧
    (live s').Perm ((live s).erase block)

def ofContract {allocator : Allocator σ} {live : σ → List Block} (contract : Contract allocator live)
    (frees : Frees allocator live) : Lender σ where
  allocator := allocator
  live := live
  valid := fun _ => True
  apart := fun _ => contract.apart _
  sized := fun _ => contract.positive _
  lends := by
    intro s _ size alignment
    obtain ⟨r,s',called,granted⟩ := alloc_granted contract size alignment s
    exact ⟨r,s',called,trivial,granted⟩
  takes := by
    intro s block _ here
    obtain ⟨s',freed,left⟩ := free_exact contract frees block (Int.le_refl 0) here
    exact ⟨s',freed,trivial,left⟩

section Debug
open DebugAllocator
variable {allocator : Allocator σ} {live : σ → List Block} {others : List Block} {state : State σ}

def toBlock (a : Allocation) : Block := ⟨a.pointer,a.size⟩

-- The records of a debug allocator, whatever else is live behind it.
def Known (live : σ → List Block) (state : State σ) : Prop := ∃ others,Tracks live others ⟨state,state.records.map given⟩

theorem Known.of_tracks (tracks : Tracks live others ⟨state,allocations⟩) : Known live state :=
  ⟨others,.refl _,tracks.count,tracks.backing,tracks.aligned⟩

theorem payload_given (records : List AllocationRecord) : (records.map given).map toBlock = records.map payload := by
  rw [List.map_map]
  rfl

theorem payload_live (tracks : Tracks live others ⟨state,allocations⟩) :
    ∀ block ∈ state.records.map payload, block ∈ live state.backing := fun _ here =>
  tracks.backing.symm.subset (List.mem_append_left _ ((payload_sublist _).subset here))

theorem payload_apart (contract : Contract allocator live) (known : Known live state) :
    (state.records.map payload).Pairwise Apart := by
  obtain ⟨others,tracks⟩ := known
  have apart : (owned state.records ++ others).Pairwise Apart :=
    (tracks.backing.pairwise_iff fun either => Or.symm either).mp (contract.apart _)
  exact (List.pairwise_append.mp apart).1.sublist (payload_sublist _)

theorem debug_lends (contract : Contract allocator live) (frees : Frees allocator live) (known : Known live state)
    (size alignment : Int) : ∃ r after, (debug allocator).alloc size alignment state = some (r,after) ∧ Known live after ∧
      Granted size alignment (state.records.map payload) r (after.records.map payload) := by
  unfold Allocator.alloc
  split
  · exact ⟨_,_,rfl,known,.inl ⟨rfl,fun _ => by decide,.refl _⟩⟩
  · split
    · exact ⟨_,_,rfl,known,.inl ⟨rfl,fun _ => by decide,.refl _⟩⟩
    · obtain ⟨others,tracks⟩ := known
      obtain ⟨r,after,called,tracked⟩ := allocate_tracks contract frees tracks size alignment
      refine ⟨r,after,called,.of_tracks tracked,?_⟩
      have blocks := tracked.records.map toBlock
      rw [payload_given] at blocks
      rcases allocate_outcome contract called with ⟨null,fails⟩ | ⟨fine,fresh⟩
      · rw [gained_null null,payload_given] at blocks
        exact .inl ⟨null,fails,blocks⟩
      · rw [gained_block fine fresh.notNull,List.map_cons,payload_given] at blocks
        exact .inr ⟨fine,fresh.fewer (payload_live tracks),blocks⟩

theorem debug_takes (contract : Contract allocator live) (frees : Frees allocator live) (known : Known live state)
    (here : block ∈ state.records.map payload) : ∃ after,
      (debug allocator).free block.pointer block.size 0 state = some (.none,after) ∧ Known live after ∧
      (after.records.map payload).Perm ((state.records.map payload).erase block) := by
  obtain ⟨others,tracks⟩ := known
  have positive := (contract.positive _ _ (payload_live tracks _ here)).2
  rw [← payload_given] at here
  obtain ⟨a,among,rfl⟩ := List.mem_map.mp here
  obtain ⟨after,freed,tracked⟩ := free_taken contract frees tracks among (.inl rfl)
  refine ⟨after,?_,.of_tracks tracked,?_⟩
  · have usable : ¬ ((toBlock a).size < 0 ∨ (0 : Int) < 0) := by omega
    unfold Allocator.free
    rw [if_neg usable]
    show (dispatchFree allocator a.size a.pointer state).map _ = _
    rw [freed]
    rfl
  · have blocks := tracked.records.map toBlock
    have split := ((List.perm_cons_erase among).map toBlock).erase (toBlock a)
    rw [payload_given] at blocks split
    rw [List.map_cons,List.erase_cons_head] at split
    exact blocks.trans split.symm

def debugging (contract : Contract allocator live) (frees : Frees allocator live) : Lender (State σ) where
  allocator := debug allocator
  live := fun state => state.records.map payload
  valid := Known live
  apart := payload_apart contract
  sized := fun ⟨_,tracks⟩ block here => contract.positive _ block (payload_live tracks block here)
  lends := debug_lends contract frees
  takes := debug_takes contract frees

-- "Leaked allocations." is the assertion that something is still lent.
theorem debugging_leaked (contract : Contract allocator live) (frees : Frees allocator live)
    (known : (debugging contract frees).valid state) :
    state.leaked = false ↔ (debugging contract frees).live state = [] := by
  obtain ⟨others,tracks⟩ := known
  have count : state.liveCount = state.records.length := tracks.count
  show state.leaked = false ↔ state.records.map payload = []
  rw [State.leaked,count,List.map_eq_nil_iff]
  cases state.records with
  | nil => simp
  | cons record records => simp

end Debug

-- A block that the client got, and one that it gave back.
inductive Entry where
  | obtained (block : Block)
  | returned (block : Block)
deriving DecidableEq, Repr

-- The blocks the client holds, the last call first: none once it gives back a block that
-- it does not hold, or holds with another size.
def ledger : List Entry → Option (List Block)
  | [] => some []
  | .obtained block :: log => (ledger log).map (block :: ·)
  | .returned block :: log => (ledger log).bind fun blocks => if block ∈ blocks then some (blocks.erase block) else none

def noted (result : AllocatorResult) (size : Int) (log : List Entry) : List Entry :=
  if result.memory = 0 then log else .obtained ⟨result.memory,size⟩ :: log

-- The allocator with the log of its client. RESIZE is a block back and another one.
def logged (allocator : Allocator σ) : Allocator (σ × List Entry) where
  procAllocate := fun size alignment t =>
    (allocator.procAllocate size alignment t.1).map fun (r,s) => (r,s,noted r size t.2)
  procResize := fun size alignment oldSize oldMemory t =>
    (allocator.procResize size alignment oldSize oldMemory t.1).map fun (r,s) =>
      (r,s,if r.error ≠ .none then t.2 else noted r size (.returned ⟨oldMemory,oldSize⟩ :: t.2))
  procFree := fun alignment oldSize oldMemory t =>
    (allocator.procFree alignment oldSize oldMemory t.1).map fun (r,s) => (r,s,.returned ⟨oldMemory,oldSize⟩ :: t.2)
  features := allocator.features
  memcpy := fun destination source length t => (allocator.memcpy destination source length t.1,t.2)

theorem logged_alloc (allocator : Allocator σ) (size alignment : Int) (s : σ) (log : List Entry) :
    (logged allocator).alloc size alignment (s,log) =
      (allocator.alloc size alignment s).map fun (r,s') => (r,s',noted r size log) := by
  unfold Allocator.alloc
  split
  · rfl
  · split
    · rfl
    · rfl

theorem logged_free (allocator : Allocator σ) (pointer : Nat) (size : Int) (usable : 0 ≤ size) (s : σ) (log : List Entry) :
    (logged allocator).free pointer size 0 (s,log) =
      (allocator.free pointer size 0 s).map fun (error,s') => (error,s',.returned ⟨pointer,size⟩ :: log) := by
  have bounds : ¬ (size < 0 ∨ (0 : Int) < 0) := by omega
  unfold Allocator.free
  rw [if_neg bounds,if_neg bounds]
  show ((allocator.procFree 0 size pointer s).map _).map _ = _
  rw [Option.map_map,Option.map_map]
  rfl

-- The log is in order, and the lender still has what is on it.
def InOrder (lender : Lender σ) (t : σ × List Entry) : Prop :=
  lender.valid t.1 ∧ ∃ blocks others, ledger t.2 = some blocks ∧ (lender.live t.1).Perm (blocks ++ others)

section Client
variable {lender : Lender σ} {t : σ × List Entry}

theorem client_lends (order : InOrder lender t) (size alignment : Int) :
    ∃ r t', (logged lender.allocator).alloc size alignment t = some (r,t') ∧ InOrder lender t' ∧
      Granted size alignment ((ledger t.2).getD []) r ((ledger t'.2).getD []) := by
  obtain ⟨s,log⟩ := t
  obtain ⟨valid,blocks,others,books,perm⟩ := order
  dsimp only at valid books perm
  obtain ⟨r,s',called,valid',granted⟩ := lender.lends valid size alignment
  rw [logged_alloc,called,books]
  refine ⟨r,(s',noted r size log),rfl,?_⟩
  rcases granted with ⟨null,fails,same⟩ | ⟨fine,fresh,more⟩
  · rw [noted,if_pos null,books]
    exact ⟨⟨valid',blocks,others,books,same.trans perm⟩,.inl ⟨null,fails,.refl _⟩⟩
  · have entered : ledger (.obtained ⟨r.memory,size⟩ :: log) = some (⟨r.memory,size⟩ :: blocks) := by
      rw [ledger,books,Option.map_some]
    rw [noted,if_neg fresh.notNull,entered]
    exact ⟨⟨valid',_,others,entered,more.trans (perm.cons _)⟩,
      .inr ⟨fine,fresh.fewer fun other here => perm.symm.subset (List.mem_append_left _ here),.refl _⟩⟩

theorem client_held (order : InOrder lender t) : ∃ blocks others, ledger t.2 = some blocks ∧
    (ledger t.2).getD [] = blocks ∧ (lender.live t.1).Perm (blocks ++ others) := by
  obtain ⟨_,blocks,others,books,perm⟩ := order
  exact ⟨blocks,others,books,by rw [books,Option.getD_some],perm⟩

theorem client_live (order : InOrder lender t) : ∀ block ∈ (ledger t.2).getD [], block ∈ lender.live t.1 := by
  obtain ⟨blocks,others,_,held,perm⟩ := client_held order
  rw [held]
  exact fun block here => perm.symm.subset (List.mem_append_left _ here)

theorem client_apart (order : InOrder lender t) : ((ledger t.2).getD []).Pairwise Apart := by
  obtain ⟨blocks,others,_,held,perm⟩ := client_held order
  rw [held]
  exact (List.pairwise_append.mp ((perm.pairwise_iff fun either => Or.symm either).mp (lender.apart order.1))).1

theorem client_takes (order : InOrder lender t) (here : block ∈ (ledger t.2).getD []) :
    ∃ t', (logged lender.allocator).free block.pointer block.size 0 t = some (.none,t') ∧ InOrder lender t' ∧
      t'.2 = .returned block :: t.2 ∧ ((ledger t'.2).getD []).Perm (((ledger t.2).getD []).erase block) ∧
      (lender.live t.1).Perm (block :: lender.live t'.1) := by
  obtain ⟨s,log⟩ := t
  have positive := (lender.sized order.1 block (client_live order block here)).2
  obtain ⟨valid,blocks,others,books,perm⟩ := order
  dsimp only at valid books perm here
  rw [books,Option.getD_some] at here
  obtain ⟨s',freed,valid',left⟩ := lender.takes valid (perm.symm.subset (List.mem_append_left _ here))
  have entered : ledger (.returned block :: log) = some (blocks.erase block) := by
    rw [ledger,books,Option.bind_some,if_pos here]
  rw [logged_free _ _ _ (Int.le_of_lt positive),freed]
  refine ⟨(s',.returned block :: log),rfl,⟨valid',blocks.erase block,others,entered,?_⟩,rfl,?_,?_⟩
  · have fewer := left.trans (perm.erase block)
    rwa [List.erase_append_left _ here] at fewer
  · rw [entered,books]
    exact .refl _
  · exact (List.perm_cons_erase (perm.symm.subset (List.mem_append_left _ here))).trans (left.symm.cons _)

-- The client and its log as a lender of their own: what is live is what it holds.
def client (lender : Lender σ) : Lender (σ × List Entry) where
  allocator := logged lender.allocator
  live := fun t => (ledger t.2).getD []
  valid := InOrder lender
  apart := client_apart
  sized := fun order block here => lender.sized order.1 block (client_live order block here)
  lends := client_lends
  takes := by
    intro t block order here
    obtain ⟨t',freed,order',_,left,_⟩ := client_takes order here
    exact ⟨t',freed,order',left⟩

end Client

end AllocatorLending
