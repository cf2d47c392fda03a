import Gameos.StringBuilder

-- A String_Builder over any sequence of its calls: concatenation.
namespace StringBuilder
open ByteMemory MachineWords

-- What a formatted print does to its backend is a sequence of these.
inductive Text where
  | append (bytes : List UInt8)
  | put_char (c : UInt8)
  | new_line
deriving DecidableEq, Repr

def Text.bytes : Text → List UInt8
  | .append bytes => bytes
  | .put_char c => [c]
  | .new_line => [10]

-- A destination allocator that grants the block, and the memory before.
structure Destination where
  out : Nat
  out_some : out ≠ 0
  memory : Memory

def Destination.alloc (destination : Destination) : Int → Unit → Option (Nat × Unit) := fun _ _ => some (destination.out,())

inductive Call where
  | text (text : Text)
  | print (texts : List Text)
  | to_string (do_reset : Bool) (destination : Destination)
  | to_c_string (do_reset : Bool) (destination : Destination)
  | reset

section Runs
variable (heap : Heap)

def Text.perform : Text → Builder → Option Builder
  | .append bytes,s => StringBuilder.append heap bytes s
  | .put_char c,s => StringBuilder.put_char heap c s
  | .new_line,s => StringBuilder.new_line heap s

def print (texts : List Text) (s : Builder) : Option Builder := texts.foldlM (fun s text => text.perform heap s) s

def Call.perform : Call → Builder → Option Builder
  | .text one,s => one.perform heap s
  | .print texts,s => StringBuilder.print heap texts s
  | .to_string do_reset destination,s =>
    (StringBuilder.to_string heap destination.alloc do_reset () destination.memory s).map fun (_,_,_,s) => s
  | .to_c_string do_reset destination,s =>
    (StringBuilder.to_c_string heap destination.alloc do_reset () destination.memory s).map fun (_,_,_,s) => s
  | .reset,s => StringBuilder.reset heap s

def run (calls : List Call) (s : Builder) : Option Builder := calls.foldlM (fun s call => call.perform heap s) s

end Runs

-- The bytes since the last reset.
def Call.after (bytes : List UInt8) : Call → List UInt8
  | .text one => bytes ++ one.bytes
  | .print texts => bytes ++ texts.flatMap Text.bytes
  | .to_string do_reset _ | .to_c_string do_reset _ => if do_reset then [] else bytes
  | .reset => []

structure Concatenates (heap : Heap) (s : Builder) (bytes : List UInt8) : Prop where
  length : length heap s = some bytes.length
  to_string : ∀ do_reset (destination : Destination),∃ view memory s',
    StringBuilder.to_string heap destination.alloc do_reset () destination.memory s = some (view,memory,(),s') ∧
      bytesAt memory view.data view.size = bytes
  to_c_string : ∀ do_reset (destination : Destination),∃ out memory s',
    StringBuilder.to_c_string heap destination.alloc do_reset () destination.memory s = some (out,memory,(),s') ∧
      bytesAt memory out (bytes.length + 1) = bytes ++ [0]

-- Later text moves and alters nothing, and the destructor gives back every block.
structure Stable (heap : Heap) (s : Builder) : Prop where
  texts : ∀ texts,∃ s' chain chain',print heap texts s = some s' ∧ s.chain heap.base = some chain ∧
    s'.chain heap.base = some chain' ∧ chain <+: chain' ∧ Keeps s s' chain
  freed : ∃ s',free_buffers heap s = some s' ∧ ledger s'.calls = some []

section Results
variable {heap : Heap} {s s' : Builder} {chain chain' : List Nat}

-- The builder after a conversion, with or without its reset.
structure Rests (heap : Heap) (s : Builder) (chain : List Nat) (do_reset : Bool) (s' : Builder) (chain' : List Nat) :
    Prop where
  holds : Holds heap s' chain'
  granted : Granted s' ↔ Granted s
  contents : contents s' (heap.base :: chain') = if do_reset then [] else contents s (heap.base :: chain)

theorem Holds.rests (holds : Holds heap s chain) (do_reset : Bool) : ∃ s' chain',
    reset_if heap do_reset s = some s' ∧ Rests heap s chain do_reset s' chain' := by
  cases do_reset with
  | false => exact ⟨s,chain,rfl,holds,Iff.rfl,rfl⟩
  | true =>
      obtain ⟨s',done,held,empty,granted⟩ := holds.reset
      exact ⟨s',[],done,held,granted,empty⟩

variable {σ : Type} (destination : Int → σ → Option (Nat × σ)) (do_reset : Bool) (d d' : σ) (memory : Memory) (out : Nat)

theorem Holds.to_string_empty (holds : Holds heap s chain) (empty : contents s (heap.base :: chain) = []) :
    ∃ s' chain',to_string heap destination do_reset d memory s = some (⟨0,0⟩,memory,d,s') ∧
      Rests heap s chain do_reset s' chain' := by
  obtain ⟨s',chain',done,rests⟩ := holds.rests do_reset
  refine ⟨s',chain',?_,rests⟩
  rw [StringBuilder.to_string,holds.length_eq,empty]
  dsimp only [Option.bind_eq_bind,Option.bind_some,List.length_nil]
  rw [if_pos rfl,done]
  rfl

theorem Holds.to_string_some (holds : Holds heap s chain) (some : contents s (heap.base :: chain) ≠ [])
    (granted : destination (contents s (heap.base :: chain)).length d = .some (out,d')) (out_some : out ≠ 0) :
    ∃ s' chain',to_string heap destination do_reset d memory s =
      .some (⟨out,(contents s (heap.base :: chain)).length⟩,memcpy memory out (contents s (heap.base :: chain)),d',s') ∧
        Rests heap s chain do_reset s' chain' := by
  obtain ⟨s',chain',done,rests⟩ := holds.rests do_reset
  refine ⟨s',chain',?_,rests⟩
  rw [StringBuilder.to_string,holds.length_eq]
  dsimp only [Option.bind_eq_bind,Option.bind_some]
  rw [if_neg (fun zero => some (List.eq_nil_of_length_eq_zero zero)),granted]
  dsimp only [Option.bind_some]
  rw [if_neg out_some,holds.copy_out_eq]
  dsimp only [Option.bind_some]
  rw [done]
  rfl

theorem Holds.to_c_string_some (holds : Holds heap s chain)
    (granted : destination (toS64 ((contents s (heap.base :: chain)).length + 1)) d = .some (out,d')) (out_some : out ≠ 0) :
    ∃ s' chain',to_c_string heap destination do_reset d memory s =
      .some (out,memcpy memory out (contents s (heap.base :: chain) ++ [0]),d',s') ∧
        Rests heap s chain do_reset s' chain' := by
  obtain ⟨s',chain',done,rests⟩ := holds.rests do_reset
  refine ⟨s',chain',?_,rests⟩
  rw [StringBuilder.to_c_string,holds.length_eq]
  dsimp only [Option.bind_eq_bind,Option.bind_some]
  rw [granted]
  dsimp only [Option.bind_some]
  rw [if_neg out_some,holds.copy_out_eq]
  dsimp only [Option.bind_some]
  rw [done,memcpy_append]
  rfl

end Results

section Concatenation
variable {heap : Heap} {s : Builder} {chain : List Nat}

theorem Holds.text (holds : Holds heap s chain) (text : Text) : ∃ s' chain',text.perform heap s = some s' ∧
    Grows heap s chain text.bytes s' chain' := by
  cases text with
  | append bytes => exact holds.append bytes
  | put_char c => exact holds.append [c]
  | new_line => exact holds.append [10]

theorem Holds.print (holds : Holds heap s chain) (texts : List Text) : ∃ s' chain',print heap texts s = some s' ∧
    Grows heap s chain (texts.flatMap Text.bytes) s' chain' := by
  induction texts generalizing s chain with
  | nil => exact ⟨s,chain,rfl,.refl holds⟩
  | cons text texts ih =>
      obtain ⟨s1,chain1,first,grows⟩ := holds.text text
      obtain ⟨s2,chain2,rest,more⟩ := ih grows.holds
      refine ⟨s2,chain2,?_,?_⟩
      · rw [StringBuilder.print,List.foldlM_cons,first]
        exact rest
      · rw [List.flatMap_cons]
        exact grows.trans more

-- The bytes of the builder, where all its memory was granted.
def Contains (heap : Heap) (s : Builder) (bytes : List UInt8) : Prop :=
  ∃ chain,Holds heap s chain ∧ (Granted s → contents s (heap.base :: chain) = bytes)

theorem grows_contains (grows : Grows heap s chain added s' chain')
    (before : Granted s → contents s (heap.base :: chain) = bytes) : Contains heap s' (bytes ++ added) :=
  ⟨_,grows.holds,fun granted => by rw [grows.contents granted,before (granted.before grows.calls)]⟩

theorem rests_contains (rests : Rests heap s chain do_reset s' chain')
    (before : Granted s → contents s (heap.base :: chain) = bytes) : Contains heap s' (if do_reset then [] else bytes) :=
  ⟨_,rests.holds,fun granted => by rw [rests.contents,before (rests.granted.mp granted)]⟩

theorem call_contains (call : Call) (contains : Contains heap s bytes) :
    ∃ s',call.perform heap s = some s' ∧ Contains heap s' (call.after bytes) := by
  obtain ⟨chain,holds,before⟩ := contains
  cases call with
  | text text =>
      obtain ⟨s',chain',step,grows⟩ := holds.text text
      exact ⟨s',step,grows_contains grows before⟩
  | print texts =>
      obtain ⟨s',chain',step,grows⟩ := holds.print texts
      exact ⟨s',step,grows_contains grows before⟩
  | to_string do_reset destination =>
      by_cases empty : contents s (heap.base :: chain) = []
      · obtain ⟨s',chain',step,rests⟩ := holds.to_string_empty destination.alloc do_reset () destination.memory empty
        exact ⟨s',by rw [Call.perform,step]; rfl,rests_contains rests before⟩
      · obtain ⟨s',chain',step,rests⟩ :=
          holds.to_string_some destination.alloc do_reset () () destination.memory _ empty rfl destination.out_some
        exact ⟨s',by rw [Call.perform,step]; rfl,rests_contains rests before⟩
  | to_c_string do_reset destination =>
      obtain ⟨s',chain',step,rests⟩ :=
        holds.to_c_string_some destination.alloc do_reset () () destination.memory _ rfl destination.out_some
      exact ⟨s',by rw [Call.perform,step]; rfl,rests_contains rests before⟩
  | reset =>
      obtain ⟨s',step,held,empty,granted⟩ := holds.reset
      exact ⟨s',step,[],held,fun _ => empty⟩

theorem run_contains (calls : List Call) (contains : Contains heap s bytes) :
    ∃ s',run heap calls s = some s' ∧ Contains heap s' (calls.foldl Call.after bytes) := by
  induction calls generalizing s bytes with
  | nil => exact ⟨s,rfl,contains⟩
  | cons call calls ih =>
      obtain ⟨s1,first,after⟩ := call_contains call contains
      obtain ⟨s2,rest,final⟩ := ih after
      refine ⟨s2,?_,final⟩
      rw [run,List.foldlM_cons,first]
      exact rest

theorem Holds.stable (holds : Holds heap s chain) : Stable heap s where
  texts texts := by
    obtain ⟨s',chain',done,grows⟩ := holds.print texts
    exact ⟨s',_,_,done,holds.chain_eq,grows.holds.chain_eq,List.cons_prefix_cons.mpr ⟨rfl,grows.longer⟩,grows.keeps⟩
  freed := by
    obtain ⟨s',done,books,_⟩ := holds.free_buffers
    exact ⟨s',done,books⟩

theorem Holds.concatenates (holds : Holds heap s chain) : Concatenates heap s (contents s (heap.base :: chain)) where
  length := holds.length_eq
  to_string do_reset destination := by
    by_cases empty : contents s (heap.base :: chain) = []
    · obtain ⟨s',chain',step,_⟩ := holds.to_string_empty destination.alloc do_reset () destination.memory empty
      exact ⟨_,_,s',step,empty.symm⟩
    · obtain ⟨s',chain',step,_⟩ :=
        holds.to_string_some destination.alloc do_reset () () destination.memory _ empty rfl destination.out_some
      exact ⟨_,_,s',step,bytesAt_memcpy _ _ _⟩
  to_c_string do_reset destination := by
    obtain ⟨s',chain',step,_⟩ :=
      holds.to_c_string_some destination.alloc do_reset () () destination.memory _ rfl destination.out_some
    have written := bytesAt_memcpy destination.memory destination.out (contents s (heap.base :: chain) ++ [0])
    rw [List.length_append] at written
    exact ⟨_,_,s',step,written⟩

end Concatenation

end StringBuilder
