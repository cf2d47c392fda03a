import Gameos.DebugAllocator
import Gameos.StringBuilderRuns

-- kstd/string.hh: strings that are given back to the allocator they came from.
namespace OwnedStrings
open AllocatorCalls AllocatorContract ByteMemory DebugAllocator MachineWords StringBuilder

-- The pointer and the size free_string passes to mem::free.
def free_string (s : View) : Option (Nat × Int) := if s.data = 0 ∨ s.size = 0 then none else some (s.data,s.size)

-- while (str[len]) len++
def kstd_strlen (memory : Memory) (str : Nat) : Nat → Nat → Option Nat
  | 0,_ => none
  | turns + 1,len => if memory (str + len) = 0 then some len else kstd_strlen memory str turns (len + 1)

-- The same for free_c_string, where the scan ends before memory does.
def free_c_string (memory : Memory) (s : Nat) : Option (Option (Nat × Int)) :=
  if s = 0 then some none
  else (kstd_strlen memory s 18446744073709551616 0).map fun (len : Nat) => some (s,toS64 (len + 1))

section Sprint
variable (heap : Heap) (buffers : Nat → Buffer) (texts : List Text)
variable (σ : Type) (destination : Int → σ → Option (Nat × σ)) (d : σ) (memory : Memory)

def sprint : Option (View × Memory × σ × Builder) :=
  (print heap texts (construct heap ⟨0,by decide⟩ buffers)).bind (to_string heap destination true d memory)

def csprint : Option (Nat × Memory × σ × Builder) :=
  (print heap texts (construct heap ⟨0,by decide⟩ buffers)).bind (to_c_string heap destination true d memory)

end Sprint

-- A conversion, for every destination allocator.
abbrev Maker (R : Type) :=
  (σ : Type) → (Int → σ → Option (Nat × σ)) → σ → Memory → Option (R × Memory × σ × Builder)

-- A destination that writes down what it hands out.
def logged {σ : Type} (destination : Int → σ → Option (Nat × σ)) (size : Int) :
    σ × List (Nat × Int) → Option (Nat × (σ × List (Nat × Int))) := fun (d,log) =>
  (destination size d).map fun (out,d) => (out,(d,(out,size) :: log))

-- mem::alloc and mem::free with the alignment of a char.
def alloc_char {σ : Type} (allocator : Allocator σ) (size : Int) (d : σ) : Option (Nat × σ) :=
  (allocator.alloc size 1 d).map fun (result,d) => (result.memory,d)

def free_char {σ : Type} (allocator : Allocator σ) : Option (Nat × Int) → σ → Option σ
  | none,d => some d
  | some (pointer,size),d => (allocator.free pointer size 1 d).map fun (_,d) => d

-- What is freed is what was allocated, and a debug allocator takes it back: no
-- assertion, and the records are of the same allocations as before.
structure FreedAsAllocated (string : Maker View) (c_string : Maker Nat) : Prop where
  strings : ∀ σ (destination : Int → σ → Option (Nat × σ)) d memory view memory' d' log s',
    string _ (logged destination) (d,[]) memory = some (view,memory',(d',log),s') → (free_string view).toList = log
  c_strings : ∀ σ (destination : Int → σ → Option (Nat × σ)) d memory out memory' d' log s',
    c_string _ (logged destination) (d,[]) memory = some (out,memory',(d',log),s') →
      (free_c_string memory' out).map Option.toList = some log
  strings_accepted : ∀ σ (backing : Allocator σ) live others,Contract backing live → Frees backing live →
    ∀ state allocations memory view memory' state' s',Tracks live others ⟨state,allocations⟩ →
      string _ (alloc_char (debug backing)) state memory = some (view,memory',state',s') →
        ∃ after,free_char (debug backing) (free_string view) state' = some after ∧ Tracks live others ⟨after,allocations⟩
  c_strings_accepted : ∀ σ (backing : Allocator σ) live others,Contract backing live → Frees backing live →
    ∀ state allocations memory out memory' state' s',Tracks live others ⟨state,allocations⟩ →
      c_string _ (alloc_char (debug backing)) state memory = some (out,memory',state',s') →
        ∃ request after,free_c_string memory' out = some request ∧
          free_char (debug backing) request state' = some after ∧ Tracks live others ⟨after,allocations⟩

-- What a builder holds.
def held (heap : Heap) (s : Builder) : List UInt8 := ((s.chain heap.base).map (contents s)).getD []

-- A builder after any calls. Its length and the NUL fit an ssize.
structure Content (heap : Heap) where
  buffer_size : S64
  buffers : Nat → Buffer
  calls : List StringBuilder.Call
  builder : Builder
  made : run heap calls (construct heap buffer_size buffers) = some builder
  fits : (held heap builder).length + 1 < 9223372036854775808

-- A builder that has printed.
structure Printed (heap : Heap) where
  buffers : Nat → Buffer
  texts : List Text
  builder : Builder
  made : print heap texts (construct heap ⟨0,by decide⟩ buffers) = some builder
  fits : (held heap builder).length + 1 < 9223372036854775808

section Scan
variable {memory : Memory} {str n : Nat}

theorem kstd_strlen_eq (before : ∀ i,i < n → memory (str + i) ≠ 0) (ends : memory (str + n) = 0) (turns len : Nat)
    (inside : len ≤ n) (enough : n - len < turns) : kstd_strlen memory str turns len = some n := by
  induction turns generalizing len with
  | zero => omega
  | succ turns ih =>
      rw [kstd_strlen]
      rcases Nat.lt_or_eq_of_le inside with less | rfl
      · rw [if_neg (before len less)]
        exact ih (len + 1) less (by omega)
      · rw [if_pos ends]

-- The scan ends at the first NUL.
theorem strlen_written (memory : Memory) (out : Nat) (bytes : List UInt8) (fits : bytes.length + 1 < 9223372036854775808) :
    kstd_strlen (memcpy memory out (bytes ++ [0])) out 18446744073709551616 0 = some (bytes.idxOf 0) := by
  have last : bytes.idxOf 0 ≤ bytes.length := List.idxOf_le_length
  refine kstd_strlen_eq (fun i before => ?_) ?_ _ 0 (Nat.zero_le _) (by omega)
  · have inside : i < bytes.length := by omega
    rw [memcpy_at,List.getD_append _ _ _ _ inside,List.getD_eq_getElem _ _ inside]
    have not := List.not_of_lt_findIdx before
    intro zero
    rw [zero] at not
    cases not
  · rw [memcpy_at]
    rcases Nat.lt_or_eq_of_le last with inside | ends
    · rw [List.getD_append _ _ _ _ inside,List.getD_eq_getElem _ _ inside]
      exact List.getElem_idxOf inside
    · rw [ends,List.getD_append_right _ _ _ _ (Nat.le_refl _),Nat.sub_self]
      rfl

end Scan

section Makers
variable {string : Maker View} {c_string : Maker Nat} {bytes : List UInt8}

-- What a conversion of these bytes asks for and returns.
def MakesString (bytes : List UInt8) (string : Maker View) : Prop :=
  ∀ σ (destination : Int → σ → Option (Nat × σ)) d memory view memory' d' s',
    string σ destination d memory = some (view,memory',d',s') →
      (view.size = 0 ∧ d' = d) ∨
        (view.data ≠ 0 ∧ view.size = bytes.length ∧ bytes.length ≠ 0 ∧ destination bytes.length d = some (view.data,d'))

def MakesCString (bytes : List UInt8) (c_string : Maker Nat) : Prop :=
  ∀ σ (destination : Int → σ → Option (Nat × σ)) d memory out memory' d' s',
    c_string σ destination d memory = some (out,memory',d',s') →
      out ≠ 0 ∧ destination (toS64 (bytes.length + 1)) d = some (out,d') ∧ memory' = memcpy memory out (bytes ++ [0])

-- The conversion of a destination that grants the block.
def Converts (bytes : List UInt8) (c_string : Maker Nat) : Prop :=
  ∃ s',c_string _ (logged fun _ d => some (8,d)) ((),[]) (fun _ => 0) =
    some (8,memcpy (fun _ => 0) 8 (bytes ++ [0]),((),[(8,toS64 (bytes.length + 1))]),s')

theorem logged_some {σ : Type} {destination : Int → σ → Option (Nat × σ)} {size : Int} {d d' : σ} {out : Nat}
    {log : List (Nat × Int)} (granted : logged destination size (d,[]) = some (out,(d',log))) : log = [(out,size)] := by
  rw [logged] at granted
  obtain ⟨answer,_,same⟩ := Option.map_eq_some_iff.mp granted
  cases same
  rfl

theorem free_c_string_written (memory : Memory) {out : Nat} (some : out ≠ 0) (fits : bytes.length + 1 < 9223372036854775808) :
    free_c_string (memcpy memory out (bytes ++ [0])) out = .some (.some (out,toS64 (bytes.idxOf 0 + 1))) := by
  rw [free_c_string,if_neg some,strlen_written memory out bytes fits,Option.map_some]

theorem free_string_empty (view : View) (empty : view.size = 0) : free_string view = none := if_pos (.inr empty)

-- A block of the debug allocator goes back as it came.
theorem accepted {σ : Type} {backing : Allocator σ} {live : σ → List Block} {others : List Block} {size : Int}
    (contract : Contract backing live) (frees : Frees backing live) {state state' : State σ} {allocations : List Allocation}
    (tracks : Tracks live others ⟨state,allocations⟩) {out : Nat} (out_some : out ≠ 0)
    (granted : alloc_char (debug backing) size state = some (out,state')) :
    ∃ after,free_char (debug backing) (some (out,size)) state' = some after ∧ Tracks live others ⟨after,allocations⟩ := by
  obtain ⟨⟨result,_⟩,allocated,same⟩ := Option.map_eq_some_iff.mp granted
  cases same
  rw [Allocator.alloc] at allocated
  split at allocated
  · cases allocated
    exact absurd rfl out_some
  · rename_i positive
    rw [if_neg (by decide)] at allocated
    obtain ⟨result',after',again,gains⟩ := allocate_tracks contract frees tracks size 1
    have unique := again.symm.trans allocated
    cases unique
    rw [gained_block (allocate_fine contract allocated out_some) out_some] at gains
    obtain ⟨after,freed,left⟩ := free_taken contract frees gains List.mem_cons_self (.inl rfl)
    rw [List.erase_cons_head] at left
    refine ⟨after,?_,left⟩
    rw [free_char,Allocator.free,if_neg (by omega)]
    show Option.map _ (Option.map _ (dispatchFree backing size result.memory state')) = _
    rw [freed]
    rfl

theorem MakesString.freed (makes : MakesString bytes string) (destination : Int → σ → Option (Nat × σ)) (d : σ)
    (memory : Memory) (returned : string _ (logged destination) (d,[]) memory = some (view,memory',(d',log),s')) :
    (free_string view).toList = log := by
  rcases makes _ _ _ _ _ _ _ _ returned with ⟨empty,same⟩ | ⟨data,size,some,granted⟩
  · cases same
    rw [free_string_empty view empty]
    rfl
  · rw [logged_some granted,free_string,if_neg (by omega),size]
    rfl

theorem MakesCString.freed (makes : MakesCString bytes c_string) (no_nul : 0 ∉ bytes)
    (fits : bytes.length + 1 < 9223372036854775808) (destination : Int → σ → Option (Nat × σ)) (d : σ) (memory : Memory)
    (returned : c_string _ (logged destination) (d,[]) memory = some (out,memory',(d',log),s')) :
    (free_c_string memory' out).map Option.toList = some log := by
  obtain ⟨data,granted,written⟩ := makes _ _ _ _ _ _ _ _ returned
  rw [written,free_c_string_written memory data fits,logged_some granted,List.idxOf_eq_length no_nul]
  rfl

theorem freed_as_allocated (makes : MakesString bytes string) (makes_c : MakesCString bytes c_string)
    (no_nul : 0 ∉ bytes) (fits : bytes.length + 1 < 9223372036854775808) : FreedAsAllocated string c_string where
  strings _ destination d memory _ _ _ _ _ returned := makes.freed destination d memory returned
  c_strings _ destination d memory _ _ _ _ _ returned := makes_c.freed no_nul fits destination d memory returned
  strings_accepted σ backing live others contract frees state allocations memory view memory' state' s' tracks returned := by
    rcases makes _ _ _ _ _ _ _ _ returned with ⟨empty,same⟩ | ⟨data,size,some,granted⟩
    · rw [free_string_empty view empty,same]
      exact ⟨state,rfl,tracks⟩
    · rw [free_string,if_neg (by omega),size]
      exact accepted contract frees tracks data granted
  c_strings_accepted σ backing live others contract frees state allocations memory out memory' state' s' tracks returned := by
    obtain ⟨data,granted,written⟩ := makes_c _ _ _ _ _ _ _ _ returned
    obtain ⟨after,freed,kept⟩ := accepted contract frees tracks data granted
    refine ⟨_,after,?_,freed,kept⟩
    rw [written,free_c_string_written memory data fits,List.idxOf_eq_length no_nul]

-- With a NUL inside, less is freed than was allocated.
theorem no_nul_of_freed (converts : Converts bytes c_string) (fits : bytes.length + 1 < 9223372036854775808)
    (freed : FreedAsAllocated string c_string) : 0 ∉ bytes := by
  obtain ⟨s',returned⟩ := converts
  have same := freed.c_strings _ _ _ _ _ _ _ _ _ returned
  have eight : (8 : Nat) ≠ 0 := by decide
  rw [free_c_string_written _ eight fits] at same
  intro nul
  have shorter : bytes.idxOf 0 < bytes.length := List.idxOf_lt_length_of_mem nul
  rw [Option.map_some,Option.some.injEq,Option.toList_some,List.cons.injEq,Prod.mk.injEq] at same
  have sizes : toS64 (bytes.idxOf 0 + 1) = toS64 (bytes.length + 1) := same.1.2
  rw [toS64_of_range (by omega) (by omega),toS64_of_range (by omega) (by omega)] at sizes
  omega

theorem freed_exact (makes : MakesString bytes string) (makes_c : MakesCString bytes c_string)
    (converts : Converts bytes c_string) (fits : bytes.length + 1 < 9223372036854775808) :
    FreedAsAllocated string c_string ↔ 0 ∉ bytes :=
  ⟨no_nul_of_freed converts fits,fun no_nul => freed_as_allocated makes makes_c no_nul fits⟩

end Makers


section Results
variable {heap : Heap} {s : Builder} {chain : List Nat} {bytes : List UInt8}

theorem Holds.held_eq (holds : Holds heap s chain) : held heap s = contents s (heap.base :: chain) := by
  rw [held,holds.chain_eq,Option.map_some,Option.getD_some]

theorem makes_string (holds : Holds heap s chain) (do_reset : Bool) : MakesString (held heap s)
    fun _ destination d memory => to_string heap destination do_reset d memory s := by
  intro σ destination d memory view memory' d' s' returned
  dsimp only at returned
  rw [Holds.held_eq holds]
  by_cases empty : contents s (heap.base :: chain) = []
  · obtain ⟨_,_,step,_⟩ := holds.to_string_empty destination do_reset d memory empty
    rw [step] at returned
    cases returned
    exact .inl ⟨rfl,rfl⟩
  · have some : (contents s (heap.base :: chain)).length ≠ 0 := fun zero => empty (List.eq_nil_of_length_eq_zero zero)
    cases answer : destination (contents s (heap.base :: chain)).length d with
    | none =>
        rw [to_string,holds.length_eq] at returned
        dsimp only [Option.bind_eq_bind,Option.bind_some] at returned
        rw [if_neg some,answer] at returned
        cases returned
    | some answered =>
        obtain ⟨out,d''⟩ := answered
        by_cases null : out = 0
        · rw [to_string,holds.length_eq] at returned
          dsimp only [Option.bind_eq_bind,Option.bind_some] at returned
          rw [if_neg some,answer] at returned
          dsimp only [Option.bind_some] at returned
          rw [if_pos null] at returned
          cases returned
        · obtain ⟨_,_,step,_⟩ := holds.to_string_some destination do_reset d d'' memory out empty answer null
          rw [step] at returned
          cases returned
          exact .inr ⟨null,rfl,some,rfl⟩

theorem makes_c_string (holds : Holds heap s chain) (do_reset : Bool) : MakesCString (held heap s)
    fun _ destination d memory => to_c_string heap destination do_reset d memory s := by
  intro σ destination d memory out memory' d' s' returned
  dsimp only at returned
  rw [Holds.held_eq holds]
  cases answer : destination (toS64 ((contents s (heap.base :: chain)).length + 1)) d with
  | none =>
      rw [to_c_string,holds.length_eq] at returned
      dsimp only [Option.bind_eq_bind,Option.bind_some] at returned
      rw [answer] at returned
      cases returned
  | some answered =>
      obtain ⟨out',d''⟩ := answered
      by_cases null : out' = 0
      · rw [to_c_string,holds.length_eq] at returned
        dsimp only [Option.bind_eq_bind,Option.bind_some] at returned
        rw [answer] at returned
        dsimp only [Option.bind_some] at returned
        rw [if_pos null] at returned
        cases returned
      · obtain ⟨_,_,step,_⟩ := holds.to_c_string_some destination do_reset d d'' memory out' answer null
        rw [step] at returned
        cases returned
        exact ⟨null,rfl,rfl⟩

theorem converts (holds : Holds heap s chain) (do_reset : Bool) : Converts (held heap s)
    fun _ destination d memory => to_c_string heap destination do_reset d memory s := by
  have eight : (8 : Nat) ≠ 0 := by decide
  obtain ⟨s',_,step,_⟩ := holds.to_c_string_some (logged fun _ d => some (8,d)) do_reset ((),[]) _ (fun _ => 0) 8 rfl eight
  rw [← Holds.held_eq holds] at step
  exact ⟨s',step⟩

theorem content_holds (content : Content heap) : ∃ chain,Holds heap content.builder chain := by
  obtain ⟨start,empty,_⟩ := construct_holds heap content.buffer_size content.buffers
  obtain ⟨s',done,chain,holds,_⟩ := run_contains content.calls ⟨[],start,fun _ => empty⟩
  have same := done.symm.trans content.made
  cases same
  exact ⟨chain,holds⟩

theorem printed_holds (printed : Printed heap) : ∃ chain,Holds heap printed.builder chain := by
  obtain ⟨start,_,_⟩ := construct_holds heap ⟨0,by decide⟩ printed.buffers
  obtain ⟨s',chain,done,grows⟩ := start.print printed.texts
  have same := done.symm.trans printed.made
  cases same
  exact ⟨chain,grows.holds⟩

theorem sprint_eq (printed : Printed heap) : sprint heap printed.buffers printed.texts =
    fun _ destination d memory => to_string heap destination true d memory printed.builder := by
  funext σ destination d memory
  rw [sprint,printed.made,Option.bind_some]

theorem csprint_eq (printed : Printed heap) : csprint heap printed.buffers printed.texts =
    fun _ destination d memory => to_c_string heap destination true d memory printed.builder := by
  funext σ destination d memory
  rw [csprint,printed.made,Option.bind_some]

-- A C string goes back as it came where no NUL is inside, a string always does.
theorem owned_strings_exact (heap : Heap) :
    (∀ (content : Content heap) do_reset,
      FreedAsAllocated (fun _ destination d memory => to_string heap destination do_reset d memory content.builder)
        (fun _ destination d memory => to_c_string heap destination do_reset d memory content.builder) ↔
          0 ∉ held heap content.builder) ∧
    (∀ printed : Printed heap,
      FreedAsAllocated (sprint heap printed.buffers printed.texts) (csprint heap printed.buffers printed.texts) ↔
        0 ∉ held heap printed.builder) := by
  constructor
  · intro content do_reset
    obtain ⟨chain,holds⟩ := content_holds content
    exact freed_exact (makes_string holds do_reset) (makes_c_string holds do_reset) (converts holds do_reset) content.fits
  · intro printed
    obtain ⟨chain,holds⟩ := printed_holds printed
    rw [sprint_eq,csprint_eq]
    exact freed_exact (makes_string holds true) (makes_c_string holds true) (converts holds true) printed.fits

end Results

section Failing

-- An allocator that never uses an address again.
def unspent : List HeapCall → Nat
  | [] => 2
  | .allocated address _ :: calls => max (address + 1) (unspent calls)
  | .refused _ :: calls | .freed _ _ :: calls => unspent calls

theorem unspent_some (calls : List HeapCall) : 2 ≤ unspent calls := by
  induction calls with
  | nil => exact Nat.le_refl 2
  | cons call calls ih =>
      cases call with
      | allocated address size => exact Nat.le_trans ih (Nat.le_max_right _ _)
      | refused size => exact ih
      | freed address size => exact ih

theorem unspent_unused {calls : List HeapCall} {blocks : List (Nat × Int)} (books : ledger calls = some blocks) :
    ∀ block ∈ blocks,block.1 < unspent calls := by
  induction calls generalizing blocks with
  | nil =>
      cases books
      exact fun block member => (List.not_mem_nil member).elim
  | cons call calls ih =>
      cases call with
      | allocated address size =>
          obtain ⟨before,earlier,rfl⟩ := Option.map_eq_some_iff.mp books
          intro block member
          rw [unspent]
          rcases List.mem_cons.mp member with rfl | member
          · exact Nat.lt_of_lt_of_le (Nat.lt_succ_self address) (Nat.le_max_left _ _)
          · exact Nat.lt_of_lt_of_le (ih earlier block member) (Nat.le_max_right _ _)
      | refused size => exact ih books
      | freed address size =>
          obtain ⟨before,earlier,rest⟩ := Option.bind_eq_some_iff.mp books
          split at rest
          · cases rest
            exact fun block member => ih earlier block (List.mem_of_mem_erase member)
          · cases rest

def roomy : Heap where
  base := 1
  base_some := by decide
  allocate := fun calls _ => unspent calls
  apart {calls _} _ := by
    have some := unspent_some calls
    omega
  unused books _ block member := Nat.ne_of_lt (unspent_unused books block member)

def blank : Nat → Buffer := fun _ => ⟨0,0,0,fun _ => 0⟩

-- "A", a NUL and "B": a C string of two bytes, four bytes long.
def embedded : Content roomy where
  buffer_size := ⟨0,by decide⟩
  buffers := blank
  calls := [.text (.append [65,0,66])]
  builder := (construct roomy ⟨0,by decide⟩ blank).fill 1 [65,0,66]
  made := rfl
  fits := by decide

theorem embedded_nul_misfreed : ¬ ∀ heap (content : Content heap) do_reset,
    FreedAsAllocated (fun _ destination d memory => to_string heap destination do_reset d memory content.builder)
      (fun _ destination d memory => to_c_string heap destination do_reset d memory content.builder) := by
  intro freed
  obtain ⟨chain,holds⟩ := content_holds embedded
  have no_nul := no_nul_of_freed (converts holds true) embedded.fits (freed roomy embedded true)
  exact no_nul (by decide)

end Failing

end OwnedStrings
