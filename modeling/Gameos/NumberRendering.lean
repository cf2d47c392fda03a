import Gameos.FormatStrings
import Gameos.MachineWords
import Mathlib.Data.Nat.Digits.Lemmas

-- kstd/format.hh: integers, strings and arrays as characters, and how many there are.
namespace NumberRendering
open BoundedLoops FormatStrings MachineWords

-- backend.put_char(c), counted.
def put_char (c : UInt8) : Printed := ⟨[c],1⟩

def nothing : Printed := ⟨[],0⟩

-- One output behind another, with `written +=`.
def followed (first second : Printed) : Printed := ⟨first.text ++ second.text,int (first.written + second.written)⟩

-- while (value > 0) { buf[len++] = digit; value = next; }
def fill (digit : Nat → UInt8) (next : Nat → Nat) (less : ∀ value,0 < value → next value < value) (value : Nat)
    (buf : List UInt8) : List UInt8 :=
  if some : 0 < value then fill digit next less (next value) (buf ++ [digit value]) else buf
termination_by value
decreasing_by exact less value some

def decimal_digit (value : Nat) : UInt8 := UInt8.ofNat (48 + value % 10)

def hex_digit (value : Nat) : UInt8 :=
  let nibble := value &&& 15
  if nibble < 10 then UInt8.ofNat (48 + nibble) else UInt8.ofNat (97 + nibble - 10)

theorem shift_less (value : Nat) (some : 0 < value) : value >>> 4 < value := by
  rw [Nat.shiftRight_eq_div_pow]
  exact Nat.div_lt_self some (by decide)

-- char buf[20]
def decimal_buffer (value : Nat) : List UInt8 :=
  fill decimal_digit (· / 10) (fun _ some => Nat.div_lt_self some (by decide)) value []

-- char buf[16]
def hex_buffer (value : Nat) : List UInt8 := fill hex_digit (· >>> 4) shift_less value []

def write_unsigned (value : Nat) : Printed :=
  if value = 0 then put_char 48
  else
    let buf := decimal_buffer value
    ⟨buf.reverse,buf.length⟩

def write_signed (value : Int) : Printed :=
  if value < 0 then
    let sign := put_char 45
    if value = -9223372036854775808 then followed sign (write_unsigned 9223372036854775808)
    else followed sign (write_unsigned (toU64 (-value)))
  else followed nothing (write_unsigned (toU64 value))

def write_hex (value : Nat) : Printed :=
  if value = 0 then put_char 48
  else
    let buf := hex_buffer value
    ⟨buf.reverse,buf.length⟩

-- for (; *s; ++s): a C string ends at its NUL.
def write_string : List UInt8 → Printed
  | [] => nothing
  | c :: rest => if c = 0 then nothing else followed (put_char c) (write_string rest)

-- It returns s.size.
def print_string (bytes : List UInt8) : Printed := ⟨bytes,int bytes.length⟩

-- Formatting_Config
structure Config where
  newline_after_each_array_element : Bool
  array_element_indent_spaces : Int
  int_range : -2147483648 ≤ array_element_indent_spaces ∧ array_element_indent_spaces < 2147483648

inductive Value where
  | unsigned (value : Fin 18446744073709551616)
  | signed (value : S64)
  | string (bytes : List UInt8)
  | c_string (bytes : List UInt8)
  | array (elements : List Value)

section Values
variable (config : Config)

-- The spaces are put by a loop, and counted by what its limit is.
def indented : Printed :=
  if config.newline_after_each_array_element then
    ⟨List.replicate config.array_element_indent_spaces.toNat 32,config.array_element_indent_spaces⟩
  else nothing

-- "[", and a new line where there are elements.
def opened (empty : Bool) : Printed :=
  if config.newline_after_each_array_element && !empty then followed (put_char 91) (put_char 10) else put_char 91

def separated (first : Bool) : Printed :=
  if !first && !config.newline_after_each_array_element then followed (put_char 44) (put_char 32) else nothing

def ended (last : Bool) : Printed :=
  if config.newline_after_each_array_element then
    if last then put_char 10 else followed (put_char 44) (put_char 10)
  else nothing

mutual

def print_value : Value → Printed
  | .unsigned value => write_unsigned value.val
  | .signed value => write_signed value.val
  | .string bytes => print_string bytes
  | .c_string bytes => write_string bytes
  | .array elements =>
    followed (followed (opened config elements.isEmpty) (print_elements true elements)) (put_char 93)

def print_elements : Bool → List Value → Printed
  | _,[] => nothing
  | first,element :: rest =>
    let before := followed (separated config first) (indented config)
    let printed := followed (followed before (print_value element)) (ended config rest.isEmpty)
    followed printed (print_elements false rest)

end

end Values

-- The value of a digit, for decimals and for lower-case hexadecimals.
def decimal_value (c : UInt8) : Option Nat := if 48 ≤ c ∧ c ≤ 57 then some (c - 48).toNat else none
def hex_value (c : UInt8) : Option Nat :=
  if 48 ≤ c ∧ c ≤ 57 then some (c - 48).toNat else if 97 ≤ c ∧ c ≤ 102 then some (c - 87).toNat else none

def parse (base : Nat) (value_of : UInt8 → Option Nat) (text : List UInt8) : Option Nat :=
  text.foldlM (fun value c => (value_of c).map (base * value + ·)) 0

-- The canonical numeral of a number.
structure Numeral (base : Nat) (value_of : UInt8 → Option Nat) (value : Nat) (text : List UInt8) : Prop where
  nonempty : text ≠ []
  parses : parse base value_of text = some value
  no_leading_zero : text.head? = some 48 → text = [48]

structure RendersExactly (config : Config) : Prop where
  unsigned : ∀ value < 18446744073709551616,Numeral 10 decimal_value value (write_unsigned value).text ∧
    (write_unsigned value).written = (write_unsigned value).text.length ∧ (decimal_buffer value).length ≤ 20
  signed : ∀ value : S64,∃ digits,(write_signed value.val).text = (if value.val < 0 then [45] else []) ++ digits ∧
    Numeral 10 decimal_value value.val.natAbs digits ∧
      (write_signed value.val).written = (write_signed value.val).text.length
  hexadecimal : ∀ value < 18446744073709551616,Numeral 16 hex_value value (write_hex value).text ∧
    (write_hex value).written = (write_hex value).text.length ∧ (hex_buffer value).length ≤ 16
  counts : ∀ format args s,print_impl (print_value config) format args = .ok s → s.output.length < 2147483648 →
    s.written = s.output.length

section Digits
variable {base : Nat} {value_of : UInt8 → Option Nat} {digit : Nat → UInt8}

-- The loop leaves the digits in the buffer, the last one first.
theorem fill_eq (two : 1 < base) {next : Nat → Nat} {less : ∀ value,0 < value → next value < value}
    (divides : ∀ value,next value = value / base) (low : ∀ value,digit value = digit (value % base))
    (value : Nat) (buf : List UInt8) :
    fill digit next less value buf = buf ++ (Nat.digits base value).map digit := by
  induction value using Nat.strongRecOn generalizing buf with
  | ind value ih =>
      rw [fill]
      rcases Nat.eq_zero_or_pos value with rfl | some
      · rw [dif_neg (Nat.lt_irrefl 0),Nat.digits_zero,List.map_nil,List.append_nil]
      · rw [dif_pos some,ih (next value) (less value some),divides,Nat.digits_def' two some,List.map_cons,← low,
          List.append_assoc,List.singleton_append]

theorem parse_reverse (spells : ∀ d < base,value_of (digit d) = some d) (digits : List Nat)
    (small : ∀ d ∈ digits,d < base) :
    parse base value_of (digits.map digit).reverse = some (Nat.ofDigits base digits) := by
  induction digits with
  | nil => rfl
  | cons d digits ih =>
      have rest := ih fun d' member => small d' (List.mem_cons_of_mem _ member)
      rw [parse] at rest ⊢
      rw [List.map_cons,List.reverse_cons,List.foldlM_append,rest]
      show (value_of (digit d)).map _ >>= _ = _
      rw [spells d (small d List.mem_cons_self),Nat.ofDigits_cons,Nat.add_comm]
      rfl

theorem numeral_reverse (two : 1 < base) (spells : ∀ d < base,value_of (digit d) = some d)
    (zero : ∀ d < base,digit d = 48 → d = 0) (value : Nat) (some : value ≠ 0) :
    Numeral base value_of value ((Nat.digits base value).map digit).reverse := by
  have digits_some : Nat.digits base value ≠ [] := Nat.digits_ne_nil_iff_ne_zero.mpr some
  refine ⟨?_,?_,fun head => ?_⟩
  · rw [ne_eq,List.reverse_eq_nil_iff,List.map_eq_nil_iff]
    exact digits_some
  · rw [parse_reverse spells _ fun d member => Nat.digits_lt_base two member,Nat.ofDigits_digits]
  · rw [List.head?_reverse,List.getLast?_map,List.getLast?_eq_getLast_of_ne_nil digits_some,Option.map_some,
      Option.some.injEq] at head
    have last := zero _ (Nat.digits_lt_base two (List.getLast_mem digits_some)) head
    exact absurd last (Nat.getLast_digit_ne_zero base some)

theorem numeral_zero (value_of : UInt8 → Option Nat) (spells : value_of 48 = some 0) : Numeral base value_of 0 [48] := by
  refine ⟨List.cons_ne_nil _ _,?_,fun _ => rfl⟩
  rw [parse,List.foldlM_cons,spells]
  rfl

end Digits

theorem decimal_buffer_eq (value : Nat) : decimal_buffer value = (Nat.digits 10 value).map decimal_digit := by
  have low : ∀ value,decimal_digit value = decimal_digit (value % 10) := fun value => by
    rw [decimal_digit,decimal_digit,Nat.mod_mod]
  exact fill_eq (by decide) (fun _ => rfl) low value []

theorem hex_buffer_eq (value : Nat) : hex_buffer value = (Nat.digits 16 value).map hex_digit := by
  have nibble : ∀ value,value &&& 15 = value % 16 := fun value => Nat.and_two_pow_sub_one_eq_mod value 4
  have low : ∀ value,hex_digit value = hex_digit (value % 16) := fun value => by
    rw [hex_digit,hex_digit,nibble,nibble,Nat.mod_mod]
  exact fill_eq (by decide) (fun value => Nat.shiftRight_eq_div_pow value 4) low value []

theorem unsigned_numeral (value : Nat) : Numeral 10 decimal_value value (write_unsigned value).text := by
  rw [write_unsigned]
  split
  · rename_i zero
    rw [zero]
    exact numeral_zero decimal_value rfl
  · rename_i some
    dsimp only
    rw [decimal_buffer_eq]
    exact numeral_reverse (by decide) (by decide) (by decide) value some

theorem hex_numeral (value : Nat) : Numeral 16 hex_value value (write_hex value).text := by
  rw [write_hex]
  split
  · rename_i zero
    rw [zero]
    exact numeral_zero hex_value rfl
  · rename_i some
    dsimp only
    rw [hex_buffer_eq]
    exact numeral_reverse (by decide) (by decide) (by decide) value some

theorem unsigned_count (value : Nat) : (write_unsigned value).written = (write_unsigned value).text.length := by
  rw [write_unsigned]
  split
  · rfl
  · dsimp only
    rw [List.length_reverse]

theorem hex_count (value : Nat) : (write_hex value).written = (write_hex value).text.length := by
  rw [write_hex]
  split
  · rfl
  · dsimp only
    rw [List.length_reverse]

theorem decimal_buffer_fits {value : Nat} (small : value < 18446744073709551616) : (decimal_buffer value).length ≤ 20 := by
  rw [decimal_buffer_eq,List.length_map,Nat.digits_length_le_iff (by decide)]
  exact Nat.lt_trans small (by decide)

theorem hex_buffer_fits {value : Nat} (small : value < 18446744073709551616) : (hex_buffer value).length ≤ 16 := by
  rw [hex_buffer_eq,List.length_map,Nat.digits_length_le_iff (by decide)]
  exact small

theorem unsigned_short {value : Nat} (small : value < 18446744073709551616) : (write_unsigned value).text.length ≤ 20 := by
  rw [write_unsigned]
  split
  · decide
  · dsimp only
    rw [List.length_reverse]
    exact decimal_buffer_fits small

-- What is written is counted, as far as an int can.
def Counted (printed : Printed) : Prop := printed.written = int printed.text.length

theorem int_small {n : Nat} (small : n < 2147483648) : int n = n := by
  rw [int,Int.bmod_eq_of_le (by omega) (by omega)]

theorem int_word {value : Int} (low : -2147483648 ≤ value) (high : value < 2147483648) : int value = value := by
  rw [int,Int.bmod_eq_of_le (by omega) (by omega)]

theorem int_add (a b : Int) : int (int a + int b) = int (a + b) := by
  unfold int
  rw [Int.bmod_add_bmod,Int.add_bmod_bmod]

theorem followed_counted {first second : Printed} (one : Counted first) (two : Counted second) :
    Counted (followed first second) := by
  unfold Counted at one two ⊢
  unfold followed
  dsimp only
  rw [one,two,int_add,List.length_append,Nat.cast_add]

-- A count that is exact and small is what an int holds.
theorem counted_exact {printed : Printed} (exact_count : printed.written = printed.text.length)
    (small : printed.text.length < 2147483648) : Counted printed := by
  unfold Counted
  rw [exact_count,int_small small]

-- A sign, or none, and a number.
theorem sign_count (sign : Printed) (exact_count : sign.written = sign.text.length) (short : sign.text.length ≤ 1)
    {magnitude : Nat} (small : magnitude ≤ 9223372036854775808) :
    (followed sign (write_unsigned magnitude)).written = (followed sign (write_unsigned magnitude)).text.length ∧
      (followed sign (write_unsigned magnitude)).text.length ≤ 21 := by
  have digits := unsigned_short (Nat.lt_of_le_of_lt small (by decide))
  have sum : (sign.text.length : Int) + (write_unsigned magnitude).text.length =
      (sign.text.length + (write_unsigned magnitude).text.length : Nat) := by omega
  unfold followed
  dsimp only
  rw [exact_count,unsigned_count,List.length_append,sum,int_small (by omega)]
  exact ⟨rfl,by omega⟩

theorem signed_numeral (value : S64) : ∃ digits,
    (write_signed value.val).text = (if value.val < 0 then [45] else []) ++ digits ∧
      Numeral 10 decimal_value value.val.natAbs digits ∧
        (write_signed value.val).written = (write_signed value.val).text.length ∧
          (write_signed value.val).text.length ≤ 21 := by
  obtain ⟨value,low,high⟩ := value
  dsimp only
  rw [write_signed]
  by_cases negative : value < 0
  · rw [if_pos negative,if_pos negative]
    by_cases minimum : value = -9223372036854775808
    · subst minimum
      exact ⟨_,rfl,unsigned_numeral 9223372036854775808,sign_count (put_char 45) rfl (Nat.le_refl 1) (Nat.le_refl _)⟩
    · have magnitude : toU64 (-value) = value.natAbs := by
        rw [toU64]
        omega
      dsimp only
      rw [if_neg minimum,magnitude]
      exact ⟨_,rfl,unsigned_numeral _,sign_count (put_char 45) rfl (Nat.le_refl 1) (by omega)⟩
  · have magnitude : toU64 value = value.natAbs := by
      rw [toU64]
      omega
    rw [if_neg negative,if_neg negative,magnitude]
    exact ⟨_,rfl,unsigned_numeral _,sign_count nothing rfl (Nat.zero_le 1) (by omega)⟩

section Counts
variable {config : Config}

theorem put_counted (c : UInt8) : Counted (put_char c) := counted_exact rfl (show 1 < 2147483648 by omega)

theorem nothing_counted : Counted nothing := counted_exact rfl (show 0 < 2147483648 by omega)

theorem print_string_counted (bytes : List UInt8) : Counted (print_string bytes) := by
  unfold Counted print_string
  dsimp only

theorem write_string_counted (bytes : List UInt8) : Counted (write_string bytes) := by
  induction bytes with
  | nil => exact nothing_counted
  | cons c rest ih =>
      rw [write_string]
      split
      · exact nothing_counted
      · exact followed_counted (put_counted c) ih

-- The indentation is counted where it is not negative.
theorem indented_counted (apart : config.newline_after_each_array_element = false ∨ 0 ≤ config.array_element_indent_spaces) :
    Counted (indented config) := by
  have range := config.int_range
  unfold indented
  split
  · rename_i newline
    have positive := apart.resolve_left (by rw [newline]; decide)
    have spaces : config.array_element_indent_spaces.toNat < 2147483648 := by omega
    refine counted_exact ?_ ?_ <;> dsimp only <;> rw [List.length_replicate]
    · omega
    · exact spaces
  · exact nothing_counted

theorem opened_counted (config : Config) (empty : Bool) : Counted (opened config empty) := by
  unfold opened
  split
  · exact followed_counted (put_counted _) (put_counted _)
  · exact put_counted _

theorem separated_counted (config : Config) (first : Bool) : Counted (separated config first) := by
  unfold separated
  split
  · exact followed_counted (put_counted _) (put_counted _)
  · exact nothing_counted

theorem ended_counted (config : Config) (last : Bool) : Counted (ended config last) := by
  unfold ended
  split
  · split
    · exact put_counted _
    · exact followed_counted (put_counted _) (put_counted _)
  · exact nothing_counted

mutual

theorem value_counted (apart : config.newline_after_each_array_element = false ∨ 0 ≤ config.array_element_indent_spaces)
    (value : Value) : Counted (print_value config value) := by
  cases value with
  | unsigned value =>
      rw [print_value]
      have short := unsigned_short value.isLt
      exact counted_exact (unsigned_count _) (by omega)
  | signed value =>
      rw [print_value]
      obtain ⟨_,_,_,count,short⟩ := signed_numeral value
      exact counted_exact count (by omega)
  | string bytes =>
      rw [print_value]
      exact print_string_counted bytes
  | c_string bytes =>
      rw [print_value]
      exact write_string_counted bytes
  | array elements =>
      rw [print_value]
      exact followed_counted (followed_counted (opened_counted config _) (elements_counted apart true elements)) (put_counted _)

theorem elements_counted (apart : config.newline_after_each_array_element = false ∨ 0 ≤ config.array_element_indent_spaces)
    (first : Bool) (elements : List Value) : Counted (print_elements config first elements) := by
  cases elements with
  | nil =>
      rw [print_elements]
      exact nothing_counted
  | cons element rest =>
      rw [print_elements]
      have before := followed_counted (separated_counted config first) (indented_counted apart)
      have printed := followed_counted (followed_counted before (value_counted apart element)) (ended_counted config rest.isEmpty)
      exact followed_counted printed (elements_counted apart false rest)

end

end Counts

section Scans
variable {Arg : Type} {print_value : Arg → Printed} {format : List UInt8} {args : Tuple Arg} {s t : Scan}

-- The count of a scan is of what the backend has received.
def Counts (s : Scan) : Prop := s.written = int s.output.length

theorem counts_more {output : List UInt8} {written : Int} (before : written = int output.length) {text : List UInt8}
    {more : Int} (counted : more = int text.length) : int (written + more) = int (output ++ text).length := by
  rw [before,counted,int_add,List.length_append,Nat.cast_add]

theorem literal_counts (counts : Counts s) : Counts (s.write_literal format) := counts_more counts rfl

theorem percent_counts (counts : Counts s) : Counts s.put_percent := counts_more counts (int_small (by decide)).symm

theorem print_arg_counted (counted : ∀ arg,Counted (print_value arg)) (values : List Arg) (position : Nat) (index : Int) :
    Counted (print_arg_at print_value values position index) := by
  induction values generalizing position with
  | nil => exact nothing_counted
  | cons arg values ih =>
      rw [print_arg_at]
      split
      · exact counted arg
      · exact ih (position + 1)

def TurnCounts : Turn Scan Scan → Prop
  | .again t | .done t => Counts t

variable {outcome : Turn Scan Scan}

theorem insert_counts (counted : ∀ arg,Counted (print_value arg)) (counts : Counts s) {value : Int}
    (step : insert print_value args s value = .ok outcome) : TurnCounts outcome := by
  unfold FormatStrings.insert at step
  split at step
  · cases step
  · cases step
    exact counts_more counts (print_arg_counted counted _ _ _)

theorem numbered_counts (counted : ∀ arg,Counted (print_value arg)) (counts : Counts s) {cursor : Nat} {sum : Int}
    (step : numbered print_value args s cursor sum = .ok outcome) : TurnCounts outcome := by
  have moved : Counts {s with cursor := cursor} := counts
  rw [numbered] at step
  split at step
  · split at step
    · cases step
      exact counts
    · exact insert_counts counted moved step
  · exact insert_counts counted moved step

theorem placeholder_counts (counted : ∀ arg,Counted (print_value arg)) (counts : Counts s)
    (step : placeholder print_value format args s = .ok outcome) : TurnCounts outcome := by
  rw [placeholder] at step
  split at step
  · exact insert_counts counted counts step
  · split at step
    · cases step
      exact percent_counts counts
    · split at step
      · exact numbered_counts counted counts step
      · exact insert_counts counted counts step

theorem turn_counts (counted : ∀ arg,Counted (print_value arg)) (counts : Counts s)
    (step : turn print_value format args s = .ok outcome) : TurnCounts outcome := by
  rw [turn] at step
  split at step
  · cases step
    exact literal_counts counts
  · split at step
    · have moved : Counts {s.write_literal format with cursor := s.cursor + 1} := literal_counts counts
      exact placeholder_counts counted moved step
    · split at step
      · cases step
        exact percent_counts (literal_counts counts)
      · cases step
        exact counts

theorem print_counts (counted : ∀ arg,Counted (print_value arg)) (printed : print_impl print_value format args = .ok t) :
    Counts t := by
  obtain ⟨s,reached,last⟩ := loop_returned _ printed
  have begun : Counts start := (int_small (by decide)).symm
  have counts := reached.keeps (fun _ u _ counts step => show TurnCounts (.again u) from turn_counts counted counts step) begun
  exact turn_counts counted counts last

-- A bare placeholder prints its argument.
theorem print_alone (print_value : Arg → Printed) (arg : Arg) (fits : [arg].length < 2147483648) :
    print_impl print_value [percent] ⟨[arg],fits⟩ =
      .ok ⟨ssize (0 + 1),1,1,int (int (int (0 + int 0) + (print_value arg).written) + int 0),
        [] ++ [] ++ (print_value arg).text ++ []⟩ := by
  rfl

end Scans

-- With a negative indentation no space is put, and the count goes down.
theorem negative_indent {config : Config} (newline : config.newline_after_each_array_element = true)
    (negative : config.array_element_indent_spaces < 0) :
    (print_value config (.array [.unsigned 0])).text = [91,10,48,10,93] ∧
      (print_value config (.array [.unsigned 0])).written = 5 + config.array_element_indent_spaces := by
  have range := config.int_range
  have spaces : config.array_element_indent_spaces.toNat = 0 := by omega
  have zero : write_unsigned 0 = ⟨[48],1⟩ := rfl
  have opening : opened config false = followed (put_char 91) (put_char 10) := by rw [opened,newline]; rfl
  have before : separated config true = nothing := rfl
  have indent : indented config = ⟨[],config.array_element_indent_spaces⟩ := by
    rw [indented,newline,spaces]
    rfl
  have ending : ended config true = put_char 10 := by rw [ended,newline]; rfl
  have value : print_value config (.unsigned 0) = ⟨[48],1⟩ := by
    rw [print_value]
    exact zero
  rw [print_value,print_elements,print_elements,List.isEmpty_nil,List.isEmpty_cons,opening,before,indent,ending,value]
  unfold followed put_char nothing
  dsimp only
  constructor
  · rfl
  · simp (disch := omega) only [int_word]
    omega

theorem renders_apart {config : Config} (renders : RendersExactly config) :
    config.newline_after_each_array_element = false ∨ 0 ≤ config.array_element_indent_spaces := by
  by_contra neither
  obtain ⟨newline,negative⟩ := not_or.mp neither
  obtain ⟨text,written⟩ := negative_indent (Bool.eq_true_of_not_eq_false newline) (Int.not_le.mp negative)
  have fits : [Value.array [.unsigned 0]].length < 2147483648 := show 1 < 2147483648 by omega
  have right := renders.counts [percent] ⟨_,fits⟩ _ (print_alone _ _ fits)
  have range := config.int_range
  dsimp only at right
  rw [text,written] at right
  simp (disch := omega) only [int_word] at right
  have five := right (show 5 < 2147483648 by omega)
  simp only [List.nil_append,List.append_nil,List.length_cons,List.length_nil] at five
  omega

end NumberRendering
