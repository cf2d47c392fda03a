import Gameos.BuddyAllocator
import Gameos.DwarfEntries
import Gameos.DwarfSourceLookup
import Gameos.FormatStrings

-- gameos/assert.hh and gameos/stack_trace.hh: what halt::forever does on the
-- processor on which an assertion failed.
namespace PanicPath
open MachineWords AllocatorTypes FormatStrings Dwarf DwarfSourceLookup

-- A call of the current allocator: it returns, fails an assertion of its own, or
-- spins on its lock for ever because this processor holds it.
inductive Reply (σ : Type) where
  | returns (result : AllocatorResult) (heap : σ)
  | asserts (heap : σ)
  | waits

structure Current (σ : Type) where
  allocate : (size alignment : Int) → σ → Reply σ
  free : (pointer : Nat) → (size alignment : Int) → σ → Reply σ

structure Kernel (σ : Type) where
  panicking : Bool
  pre_halt_hook : Bool
  stop_requests : Nat
  halt_print_buf : List UInt8
  -- what the serial port and each of the other printers have received
  serial : List UInt8
  halt_print_fns : List (List UInt8)
  heap : σ
  -- the return addresses on the stack, from the innermost frame on
  frames : List Nat
  infos : List SubprogramInfo
  rows : List SourceRow
  -- the calls of halt::forever, and of the allocator for memory
  calls : Nat
  allocations : Nat

-- How the processor ends: in the loop at the end of halt::forever, in the one for
-- a processor that finds panicking set, or on a lock.
inductive Fate where
  | halted | frozen | waiting
deriving DecidableEq, Repr

inductive Result (σ α : Type) where
  | next (value : α) (k : Kernel σ)
  | stop (fate : Fate) (k : Kernel σ)

def Result.bind (result : Result σ α) (continue_with : α → Kernel σ → Result σ β) : Result σ β :=
  match result with
  | .next value k => continue_with value k
  | .stop fate k => .stop fate k

def HALT_PRINT_BUF_SIZE : Nat := 1024

def put_char (k : Kernel σ) (c : UInt8) : Kernel σ :=
  if k.halt_print_buf.length < HALT_PRINT_BUF_SIZE then {k with halt_print_buf := k.halt_print_buf ++ [c]} else k

def put_cstr (k : Kernel σ) (text : List UInt8) : Kernel σ := text.foldl put_char k

def flush (k : Kernel σ) : Kernel σ :=
  {k with
    serial := k.serial ++ k.halt_print_buf
    halt_print_fns := k.halt_print_fns.map (· ++ k.halt_print_buf)
    halt_print_buf := []}

-- The digits of a number, the last one first.
def reversed_digits (base : Nat) (digit : Nat → UInt8) : Nat → Nat → List UInt8
  | 0, _ => []
  | more + 1, value => if value = 0 then [] else digit (value % base) :: reversed_digits base digit more (value / base)

def decimal_digit (digit : Nat) : UInt8 := (48 + digit).toUInt8
def hex_digit (nibble : Nat) : UInt8 := if nibble < 10 then (48 + nibble).toUInt8 else (97 + nibble - 10).toUInt8

def write_unsigned (value : Nat) : List UInt8 :=
  if value = 0 then [48] else (reversed_digits 10 decimal_digit 20 value).reverse

def write_signed (value : Int) : List UInt8 :=
  if value < 0 then 45 :: write_unsigned (-value).toNat else write_unsigned value.toNat

def write_hex (value : Nat) : List UInt8 :=
  if value = 0 then [48] else (reversed_digits 16 hex_digit 16 value).reverse

def write_pointer (value : Nat) : List UInt8 := [48,120] ++ write_hex value

inductive Printable where
  | text (bytes : List UInt8)
  | signed (value : Int)
  | pointer (value : Nat)

def print_value : Printable → Printed
  | .text bytes => ⟨bytes,bytes.length⟩
  | .signed value => ⟨write_signed value,(write_signed value).length⟩
  | .pointer value => ⟨write_pointer value,(write_pointer value).length⟩

structure Source_Location where
  file_name : List UInt8
  line : Nat
  column : Nat

structure Trace where
  function_address : Nat
  function_name : List UInt8
  file_name : List UInt8
  line_number : Int

def size_of_Trace : Int := 48
def align_of_Trace : Int := 8
def SKIP_FRAME_COUNT : Nat := 3
def DEFAULT_FRAME_COUNT : Nat := 10

-- "<unknown>"
def unknown_function : List UInt8 := [60,117,110,107,110,111,119,110,62]

def function_name_for_address (infos : List SubprogramInfo) (address : Nat) : List UInt8 :=
  match infos.find? fun info => info.lowPc ≤ address && address < info.highPc with
  | some info => info.name
  | none => unknown_function

-- The loop over the frames. The array has room for all of them.
def traces_from (infos : List SubprogramInfo) (rows : List SourceRow) (max_frame_count skip_frame_count : Nat) :
    Nat → List Nat → List Trace
  | _, [] => []
  | frame_index, rip :: frames =>
    if frame_index < max_frame_count && rip ≠ 0 then
      let more := traces_from infos rows max_frame_count skip_frame_count (frame_index + 1) frames
      if frame_index ≥ skip_frame_count then
        let row := (source_for_address rows rip).row
        ⟨rip,function_name_for_address infos rip,row.fileName,row.line⟩ :: more
      else more
    else []

def ask_others_to_stop (k : Kernel σ) : Kernel σ :=
  if k.pre_halt_hook then {k with stop_requests := k.stop_requests + 1} else k

-- halt::forever as it is entered again: panicking is set already.
def forever_again (k : Kernel σ) : Result σ α := .stop .frozen (ask_others_to_stop {k with calls := k.calls + 1})

section Panic
variable (current : Current σ)

-- The constructor of Array<Trace> takes its storage from the current allocator.
def allocate_storage (count : Nat) (k : Kernel σ) : Result σ Nat :=
  let k := {k with allocations := k.allocations + 1}
  match current.allocate (size_of_Trace * count) align_of_Trace k.heap with
  | .waits => .stop .waiting k
  | .asserts heap => forever_again {k with heap := heap}
  | .returns result heap =>
    if result.memory = 0 then forever_again {k with heap := heap} else .next result.memory {k with heap := heap}

def free_storage (pointer count : Nat) (k : Kernel σ) : Result σ Unit :=
  match current.free pointer (size_of_Trace * count) align_of_Trace k.heap with
  | .waits => .stop .waiting k
  | .asserts heap => forever_again {k with heap := heap}
  | .returns _ heap => .next () {k with heap := heap}

-- halt::println. The format is "  %:% % (%)".
def trace_format : List UInt8 := [32,32,37,58,37,32,37,32,40,37,41]

def println (format : List UInt8) (args : Tuple Printable) (k : Kernel σ) : Result σ Unit :=
  match print_impl print_value format args with
  | .ok s => .next () (flush (put_char (put_cstr k s.output) 10))
  | .error (.assertion _ output) => forever_again (put_cstr k output)
  | .error .out_of_turns => forever_again k

def trace_arguments (trace : Trace) : Tuple Printable :=
  ⟨[.text trace.file_name,.signed trace.line_number,.text trace.function_name,.pointer trace.function_address],
    show 4 < 2147483648 by decide⟩

def print_traces : List Trace → Kernel σ → Result σ Unit
  | [], k => .next () k
  | trace :: traces, k => (println trace_format (trace_arguments trace) k).bind fun _ => print_traces traces

-- "Stack trace:"
def stack_trace_title : List UInt8 := [83,116,97,99,107,32,116,114,97,99,101,58]

def print_stack_trace (max_frame_count skip_frame_count : Nat) (k : Kernel σ) : Result σ Unit :=
  (println stack_trace_title ⟨[],by decide⟩ k).bind fun _ k =>
  (allocate_storage current max_frame_count k).bind fun data k =>
  (print_traces (traces_from k.infos k.rows max_frame_count skip_frame_count 0 k.frames) k).bind fun _ k =>
  free_storage current data max_frame_count k

-- file:line:column: message
def heading (message : Option (List UInt8)) (location : Source_Location) : List UInt8 :=
  location.file_name ++ [58] ++ write_unsigned location.line ++ [58] ++ write_unsigned location.column ++
    (match message with
    | some message => [58,32] ++ message
    | none => []) ++ [10]

def forever (message : Option (List UInt8)) (location : Source_Location) (k : Kernel σ) : Result σ Unit :=
  let k := ask_others_to_stop {k with calls := k.calls + 1}
  if k.panicking then .stop .frozen k
  else
    let k := flush (put_cstr {k with panicking := true} (heading message location))
    (print_stack_trace current DEFAULT_FRAME_COUNT SKIP_FRAME_COUNT k).bind fun _ k => .stop .halted k

end Panic

-- What the reader of the screen is owed for one frame.
def trace_line (trace : Trace) : List UInt8 :=
  [32,32] ++ trace.file_name ++ [58] ++ write_signed trace.line_number ++ [32] ++ trace.function_name ++ [32,40] ++
    write_pointer trace.function_address ++ [41]

def backtrace (k : Kernel σ) : List Trace :=
  traces_from k.infos k.rows DEFAULT_FRAME_COUNT SKIP_FRAME_COUNT 0 k.frames

def report (message : Option (List UInt8)) (location : Source_Location) (k : Kernel σ) : List UInt8 :=
  heading message location ++ stack_trace_title ++ [10] ++ (backtrace k).flatMap fun trace => trace_line trace ++ [10]

-- The panic path works from a state: the processor ends in the last loop of
-- halt::forever, the report is out, the current allocator has not been asked for
-- memory, and halt::forever has called itself once at most.
structure Works (current : Current σ) (message : Option (List UInt8)) (location : Source_Location)
    (k after : Kernel σ) : Prop where
  halts : forever current message location k = .stop .halted after
  printed : after.serial = k.serial ++ k.halt_print_buf ++ report message location k
  allocates_nothing : after.allocations = k.allocations
  recurses_once : after.calls ≤ k.calls + 2

-- Printing changes the buffer and what the printers have received, nothing else.
def Prints (k after : Kernel σ) : Prop := ∃ buffer serial fns,
  after = {k with halt_print_buf := buffer, serial := serial, halt_print_fns := fns}

theorem prints_refl (k : Kernel σ) : Prints k k := ⟨_,_,_,rfl⟩

theorem Prints.trans {k middle after : Kernel σ} (one : Prints k middle) (two : Prints middle after) :
    Prints k after := by
  obtain ⟨_,_,_,rfl⟩ := one
  obtain ⟨_,_,_,rfl⟩ := two
  exact ⟨_,_,_,rfl⟩

theorem put_char_prints (k : Kernel σ) (c : UInt8) : Prints k (put_char k c) := by
  unfold put_char
  split
  · exact ⟨_,_,_,rfl⟩
  · exact prints_refl k

theorem put_cstr_prints (k : Kernel σ) (text : List UInt8) : Prints k (put_cstr k text) := by
  induction text generalizing k with
  | nil => exact prints_refl k
  | cons c text ih => exact (put_char_prints k c).trans (ih _)

theorem flush_prints (k : Kernel σ) : Prints k (flush k) := ⟨_,_,_,rfl⟩

def print_line (k : Kernel σ) (text : List UInt8) : Kernel σ := flush (put_char (put_cstr k text) 10)

theorem print_line_prints (k : Kernel σ) (text : List UInt8) : Prints k (print_line k text) :=
  ((put_cstr_prints k text).trans (put_char_prints _ 10)).trans (flush_prints _)

theorem print_lines_prints (k : Kernel σ) (texts : List (List UInt8)) : Prints k (texts.foldl print_line k) := by
  induction texts generalizing k with
  | nil => exact prints_refl k
  | cons text texts ih => exact (print_line_prints k text).trans (ih _)

-- A format whose placeholders all have an argument fails no assertion.
theorem println_prints (k : Kernel σ) (detected : Detected args.values.length 0 (tokens format))
    (meant : meaning (fun arg => (print_value arg).text) args.values 0 0 [] (tokens format) = ⟨text,none⟩) :
    println format args k = .next () (print_line k text) := by
  have agrees : observe (print_impl print_value format args) = _ :=
    (loop_meaning format (start_standing format) rfl _ (Nat.lt_succ_self _)).mpr detected
  change _ = some (meaning _ args.values 0 0 [] (tokens format)) at agrees
  rw [meant] at agrees
  unfold println
  cases outcome : print_impl print_value format args with
  | ok s =>
      rw [outcome] at agrees
      cases agrees
      rfl
  | error abort =>
      rw [outcome] at agrees
      cases abort <;> cases agrees

theorem title_tokens : tokens stack_trace_title = stack_trace_title.map .literal := by
  simp [stack_trace_title,tokens,percent,escaped_percent]

theorem title_prints (k : Kernel σ) (fits) :
    println stack_trace_title ⟨[],fits⟩ k = .next () (print_line k stack_trace_title) := by
  apply println_prints
  · rw [title_tokens]
    simp [stack_trace_title,Detected]
  · rw [title_tokens]
    rfl

theorem trace_tokens : tokens trace_format = [.literal 32,.literal 32,.placeholder [],.literal 58,.placeholder [],
    .literal 32,.placeholder [],.literal 32,.literal 40,.placeholder [],.literal 41] := by
  simp [trace_format,tokens,percent,escaped_percent,is_digit]

theorem trace_prints (k : Kernel σ) (trace : Trace) :
    println trace_format (trace_arguments trace) k = .next () (print_line k (trace_line trace)) := by
  apply println_prints
  · rw [trace_tokens]
    simp [trace_arguments,Detected,designated,decimal]
  · rw [trace_tokens]
    simp [trace_arguments,meaning,designated,decimal,print_value,trace_line]

theorem print_traces_prints (traces : List Trace) (k : Kernel σ) :
    print_traces traces k = .next () ((traces.map trace_line).foldl print_line k) := by
  induction traces generalizing k with
  | nil => rfl
  | cons trace traces ih =>
      unfold print_traces
      rw [trace_prints]
      exact ih _

theorem print_stack_trace_asks (current : Current σ) (k : Kernel σ) :
    print_stack_trace current DEFAULT_FRAME_COUNT SKIP_FRAME_COUNT k =
      (allocate_storage current DEFAULT_FRAME_COUNT (print_line k stack_trace_title)).bind fun data k =>
        free_storage current data DEFAULT_FRAME_COUNT (((backtrace k).map trace_line).foldl print_line k) := by
  unfold print_stack_trace
  rw [title_prints]
  change (allocate_storage _ _ _).bind _ = _
  congr 1
  funext data k
  rw [print_traces_prints]
  rfl

section Ends
variable (current : Current σ) (message : Option (List UInt8)) (location : Source_Location) (k : Kernel σ)

-- The state in which the array for the trace is to be constructed.
def titled : Kernel σ :=
  print_line (flush (put_cstr {ask_others_to_stop {k with calls := k.calls + 1} with panicking := true}
    (heading message location))) stack_trace_title

theorem titled_prints :
    Prints {ask_others_to_stop {k with calls := k.calls + 1} with panicking := true} (titled message location k) :=
  ((put_cstr_prints _ _).trans (flush_prints _)).trans (print_line_prints _ _)

theorem ask_others_to_stop_heap : (ask_others_to_stop k).heap = k.heap ∧
    (ask_others_to_stop k).allocations = k.allocations := by
  unfold ask_others_to_stop
  split <;> exact ⟨rfl,rfl⟩

theorem titled_heap : (titled message location k).heap = k.heap ∧
    (titled message location k).allocations = k.allocations := by
  obtain ⟨buffer,serial,fns,same⟩ := titled_prints message location k
  rw [same]
  exact ask_others_to_stop_heap _

theorem forever_again_ends (already : k.panicking = true) :
    forever current message location k = .stop .frozen (ask_others_to_stop {k with calls := k.calls + 1}) := by
  have still : (ask_others_to_stop {k with calls := k.calls + 1}).panicking = true := by
    unfold ask_others_to_stop
    split <;> exact already
  unfold forever
  exact if_pos still

theorem forever_first (first : k.panicking = false) :
    forever current message location k =
      (allocate_storage current DEFAULT_FRAME_COUNT (titled message location k)).bind fun data k =>
        (free_storage current data DEFAULT_FRAME_COUNT (((backtrace k).map trace_line).foldl print_line k)).bind
          fun _ k => .stop .halted k := by
  have still : ¬ (ask_others_to_stop {k with calls := k.calls + 1}).panicking = true := by
    unfold ask_others_to_stop
    split <;> simp [first]
  unfold forever
  refine (if_neg still).trans ?_
  change (print_stack_trace _ _ _ _).bind _ = _
  rw [print_stack_trace_asks]
  unfold titled
  cases allocate_storage current DEFAULT_FRAME_COUNT _ with
  | stop fate k => rfl
  | next data k => rfl

-- The current allocator hands out the storage of the trace and takes it back.
def Serves (heap : σ) : Prop :=
  ∃ result given, current.allocate (size_of_Trace * DEFAULT_FRAME_COUNT) align_of_Trace heap = .returns result given ∧
    result.memory ≠ 0 ∧ ∃ last freed,
      current.free result.memory (size_of_Trace * DEFAULT_FRAME_COUNT) align_of_Trace given = .returns last freed

theorem bind_halted {result : Result σ α} {more : α → Kernel σ → Result σ β}
    (halts : result.bind more = .stop .halted after) (never : ∀ k, result ≠ .stop .halted k) :
    ∃ value middle, result = .next value middle ∧ more value middle = .stop .halted after := by
  cases result with
  | next value middle => exact ⟨value,middle,rfl,halts⟩
  | stop fate middle =>
      cases halts
      exact absurd rfl (never after)

theorem allocate_storage_halted (count : Nat) (after : Kernel σ) :
    allocate_storage current count k ≠ .stop .halted after := by
  unfold allocate_storage
  dsimp only
  cases current.allocate (size_of_Trace * count) align_of_Trace k.heap with
  | waits => exact fun same => nomatch same
  | asserts heap => exact fun same => nomatch same
  | returns result heap =>
      dsimp only
      split
      · exact fun same => nomatch same
      · exact fun same => nomatch same

theorem allocate_storage_next : allocate_storage current count k = .next data middle ↔
    ∃ result given, current.allocate (size_of_Trace * count) align_of_Trace k.heap = .returns result given ∧
      result.memory ≠ 0 ∧ data = result.memory ∧
      middle = {k with allocations := k.allocations + 1, heap := given} := by
  unfold allocate_storage
  dsimp only
  cases current.allocate (size_of_Trace * count) align_of_Trace k.heap with
  | waits => simp
  | asserts heap => simp [forever_again]
  | returns result heap =>
      dsimp only
      by_cases null : result.memory = 0
      · rw [if_pos null]
        simp [forever_again,null]
      · rw [if_neg null]
        constructor
        · intro same
          cases same
          exact ⟨result,heap,rfl,null,rfl,rfl⟩
        · rintro ⟨_,_,same,_,rfl,rfl⟩
          cases same
          rfl

theorem free_storage_halted (pointer count : Nat) (after : Kernel σ) :
    free_storage current pointer count k ≠ .stop .halted after := by
  unfold free_storage
  cases current.free pointer (size_of_Trace * count) align_of_Trace k.heap <;> exact fun same => nomatch same

theorem free_storage_next : free_storage current pointer count k = .next () middle ↔
    ∃ result given, current.free pointer (size_of_Trace * count) align_of_Trace k.heap = .returns result given ∧
      middle = {k with heap := given} := by
  unfold free_storage
  cases current.free pointer (size_of_Trace * count) align_of_Trace k.heap with
  | waits => simp
  | asserts heap => simp [forever_again]
  | returns result heap =>
      constructor
      · intro same
        cases same
        exact ⟨result,heap,rfl,rfl⟩
      · rintro ⟨_,_,same,rfl⟩
        cases same
        rfl

theorem lines_heap : (((backtrace k).map trace_line).foldl print_line k).heap = k.heap ∧
    (((backtrace k).map trace_line).foldl print_line k).allocations = k.allocations := by
  obtain ⟨buffer,serial,fns,same⟩ := print_lines_prints k ((backtrace k).map trace_line)
  rw [same]
  exact ⟨rfl,rfl⟩

-- The end of halt::forever is reached through the current allocator only.
theorem halts_serves (halts : forever current message location k = .stop .halted after) :
    (k.panicking = false ∧ Serves current k.heap) ∧ after.allocations = k.allocations + 1 := by
  cases panicking : k.panicking with
  | true =>
      rw [forever_again_ends current message location k panicking] at halts
      cases halts
  | false =>
      rw [forever_first current message location k panicking] at halts
      have begun := titled_heap message location k
      generalize titled message location k = start at begun halts
      obtain ⟨data,middle,allocated,halts⟩ := bind_halted halts (allocate_storage_halted current _ _)
      obtain ⟨_,last,released,halts⟩ := bind_halted halts (free_storage_halted current _ _ _)
      obtain ⟨result,given,reply,present,rfl,rfl⟩ := (allocate_storage_next current _).mp allocated
      have printed := lines_heap {start with allocations := start.allocations + 1, heap := given}
      generalize List.foldl print_line _ _ = lines at printed released
      obtain ⟨freed,back,returned,rfl⟩ := (free_storage_next current _).mp released
      rw [begun.1] at reply
      rw [printed.1] at returned
      cases halts
      exact ⟨⟨rfl,result,given,reply,present,freed,back,returned⟩,printed.2.trans (congrArg (· + 1) begun.2)⟩

theorem serves_halts (first : k.panicking = false) (serves : Serves current k.heap) :
    ∃ after, forever current message location k = .stop .halted after := by
  obtain ⟨result,given,reply,present,freed,back,returned⟩ := serves
  rw [← (titled_heap message location k).1] at reply
  rw [forever_first current message location k first,
    (allocate_storage_next current _).mpr ⟨result,given,reply,present,rfl,rfl⟩]
  obtain ⟨same,_⟩ := lines_heap {titled message location k with
    allocations := (titled message location k).allocations + 1, heap := given}
  have released := (free_storage_next current _).mpr ⟨freed,back,(congrArg _ same).trans returned,rfl⟩
  exact ⟨_,congrArg (Result.bind · fun _ k => .stop .halted k) released⟩

-- halt::forever reaches its last loop exactly when it is entered for the first
-- time and the current allocator serves it.
theorem forever_halts_iff : (∃ after, forever current message location k = .stop .halted after) ↔
    k.panicking = false ∧ Serves current k.heap := by
  constructor
  · intro ⟨after,halts⟩
    exact (halts_serves current message location k halts).1
  · intro ⟨first,serves⟩
    exact serves_halts current message location k first serves

-- The trace is built in memory of the current allocator, whatever the state is.
theorem panic_never_works : ¬ ∃ after, Works current message location k after := by
  intro ⟨after,works⟩
  have counted := (halts_serves current message location k works.halts).2
  rw [works.allocates_nothing] at counted
  exact absurd counted (Nat.succ_ne_self _).symm

-- The processor that holds the lock of the current allocator waits for it for ever,
-- with the message out and no trace.
theorem forever_waits (first : k.panicking = false)
    (waits : current.allocate (size_of_Trace * DEFAULT_FRAME_COUNT) align_of_Trace k.heap = .waits) :
    ∃ after, forever current message location k = .stop .waiting after ∧
      after.serial = (titled message location k).serial := by
  rw [← (titled_heap message location k).1] at waits
  rw [forever_first current message location k first]
  unfold allocate_storage
  dsimp only
  rw [waits]
  exact ⟨_,rfl,rfl⟩

-- Without memory the array's assertion enters halt::forever again, which freezes.
theorem forever_exhausted (first : k.panicking = false)
    (denied : current.allocate (size_of_Trace * DEFAULT_FRAME_COUNT) align_of_Trace k.heap = .returns ⟨0,error⟩ heap) :
    ∃ after, forever current message location k = .stop .frozen after ∧
      after.serial = (titled message location k).serial := by
  rw [← (titled_heap message location k).1] at denied
  rw [forever_first current message location k first]
  unfold allocate_storage
  dsimp only
  rw [denied]
  refine ⟨_,rfl,?_⟩
  unfold ask_others_to_stop
  dsimp only
  split <;> rfl

end Ends

-- The buddy allocator as this processor meets it: the allocator and its lock.
structure Locked where
  state : BuddyAllocator.State
  held : Bool

-- ALLOCATE looks at its arguments before it takes the lock, FREE at its pointer.
def buddy : Current Locked where
  allocate size alignment heap :=
    if heap.held && decide (0 < size) && isPowerOfTwo alignment &&
        decide (toU64 size ≤ BuddyAllocator.requiredSizeFor (toU64 size) (toU64 alignment)) then .waits
    else
      let (result,state) := BuddyAllocator.allocate heap.state size alignment
      .returns result {heap with state := state}
  free pointer _ _ heap :=
    if pointer = 0 then .returns (success 0) heap
    else if heap.held then .waits
    else
      match BuddyAllocator.free heap.state pointer with
      | none => .asserts {heap with held := true}
      | some (result,state) => .returns result {heap with state := state}

theorem free_asserts_held (asserts : buddy.free pointer size alignment heap = .asserts after) : after.held = true := by
  unfold buddy at asserts
  dsimp only at asserts
  split at asserts
  · cases asserts
  · split at asserts
    · cases asserts
    · cases freed : BuddyAllocator.free heap.state pointer with
      | none =>
          rw [freed] at asserts
          cases asserts
          rfl
      | some result =>
          rw [freed] at asserts
          cases asserts

theorem buddy_waits (heap : Locked) (held : heap.held = true) :
    buddy.allocate (size_of_Trace * DEFAULT_FRAME_COUNT) align_of_Trace heap = .waits := by
  unfold buddy
  dsimp only
  rw [held]
  rfl

-- A double free with the buddy allocator as the current one: FREE fails its assertion
-- under the lock, and the trace needs that lock.
theorem double_free_waits (asserts : buddy.free pointer size alignment heap = .asserts after)
    (message : Option (List UInt8)) (location : Source_Location) (k : Kernel Locked) (first : k.panicking = false) :
    ∃ last, forever buddy message location {k with heap := after} = .stop .waiting last := by
  obtain ⟨last,waits,_⟩ := forever_waits buddy message location {k with heap := after} first
    (buddy_waits after (free_asserts_held asserts))
  exact ⟨last,waits⟩

-- One page, allocated and freed: its block is on the free list, its header says so.
def freed_page : Locked where
  state := ⟨fun order => if order = 12 then [4096] else [],ByteMemory.write (fun _ => 0) 4105 1 BuddyAllocator.freed⟩
  held := false

def booted (heap : σ) : Kernel σ where
  panicking := false
  pre_halt_hook := false
  stop_requests := 0
  halt_print_buf := []
  serial := []
  halt_print_fns := []
  heap := heap
  frames := [1,2,3,4096]
  infos := []
  rows := []
  calls := 0
  allocations := 0

-- "double free"
def double_free : List UInt8 := [100,111,117,98,108,101,32,102,114,101,101]

theorem freed_page_asserts : buddy.free 4128 16 8 freed_page = .asserts {freed_page with held := true} := by
  have header : (BuddyAllocator.readHeader freed_page.state.memory (BuddyAllocator.headerFromPointer 4128)).state ≠
      BuddyAllocator.live := by decide
  have freed : BuddyAllocator.free freed_page.state 4128 = none := by
    unfold BuddyAllocator.free
    exact (if_neg (by decide)).trans (if_pos header)
  unfold buddy
  dsimp only
  rw [if_neg (by decide),if_neg (by decide),freed]

theorem double_free_hangs : ∃ heap, buddy.free 4128 16 8 freed_page = .asserts heap ∧
    (∃ last, forever buddy (some double_free) ⟨[],185,17⟩ (booted heap) = .stop .waiting last) ∧
    ¬ ∃ after, Works buddy (some double_free) ⟨[],185,17⟩ (booted heap) after := by
  obtain ⟨last,waits⟩ := double_free_waits freed_page_asserts (some double_free) ⟨[],185,17⟩ (booted freed_page) rfl
  refine ⟨_,freed_page_asserts,⟨last,waits⟩,?_⟩
  intro ⟨after,works⟩
  have halts := works.halts
  change forever buddy _ _ {booted freed_page with heap := _} = _ at halts
  rw [waits] at halts
  cases halts

end PanicPath
