import Mathlib.Data.List.TakeWhile
import Mathlib.Tactic.Linarith
import Gameos.BoundedLoops

namespace FormatStrings
open BoundedLoops

-- kstd/format.hh: what a call of print_value puts on the backend and returns.
structure Printed where
  text : List UInt8
  written : Int
deriving DecidableEq, Repr

-- The arguments. Their number is held in an `int`.
structure Tuple (Arg : Type) where
  values : List Arg
  fits : values.length < 2147483648

-- ssize and int arithmetic as the machine does it.
def ssize (value : Int) : Int := value.bmod 18446744073709551616
def int (value : Int) : Int := value.bmod 4294967296

def percent : UInt8 := 37
def escaped_percent : UInt8 := 31

def is_digit (c : UInt8) : Bool := 48 ≤ c && c ≤ 57

structure Scan where
  implicit_index_cursor : Int
  cursor : Nat
  printed : Nat
  written : Int
  -- what the backend has received
  output : List UInt8
deriving DecidableEq, Repr

inductive Abort where
  | assertion (at_cursor : Nat) (output : List UInt8)
  | out_of_turns
deriving DecidableEq, Repr

def slice (format : List UInt8) (first last : Nat) : List UInt8 := (format.take last).drop first

def Scan.write_literal (s : Scan) (format : List UInt8) : Scan :=
  let literal := slice format s.printed s.cursor
  {s with output := s.output ++ literal, written := int (s.written + int literal.length)}

def Scan.put_percent (s : Scan) : Scan :=
  {s with output := s.output ++ [percent], written := int (s.written + 1), cursor := s.cursor + 1, printed := s.cursor + 1}

-- The inner loop over the digits of a placeholder: the cursor behind them, and
-- their sum.
def digits : List UInt8 → Nat → Int → Nat × Int
  | [], cursor, sum => (cursor,sum)
  | c :: rest, cursor, sum =>
    if is_digit c then digits rest (cursor + 1) (ssize (ssize (sum * 10) + (c - 48).toNat)) else (cursor,sum)

section Printing
variable {Arg : Type} (print_value : Arg → Printed)

def print_arg_at : List Arg → Nat → Int → Printed
  | [], _, _ => ⟨[],0⟩
  | arg :: args, position, index =>
    if (position : Int) = index then print_value arg else print_arg_at args (position + 1) index

def insert (args : Tuple Arg) (s : Scan) (value : Int) : Except Abort (Turn Scan Scan) :=
  if value ≥ args.values.length then .error (.assertion s.cursor s.output)
  else
    let argument := print_arg_at print_value args.values 0 value
    .ok (.again {s with
      output := s.output ++ argument.text, written := int (s.written + argument.written),
      implicit_index_cursor := ssize (value + 1), printed := s.cursor})

-- The digits of a placeholder end at the cursor and add up to the sum.
def numbered (args : Tuple Arg) (s : Scan) (cursor : Nat) (sum : Int) : Except Abort (Turn Scan Scan) :=
  if sum = 0 then
    if cursor - s.cursor ≥ 2 then .ok (.again {s with cursor := cursor, printed := cursor})
    else insert print_value args {s with cursor := cursor} s.implicit_index_cursor
  else insert print_value args {s with cursor := cursor} (ssize (sum - 1))

-- Behind a '%'.
def placeholder (format : List UInt8) (args : Tuple Arg) (s : Scan) : Except Abort (Turn Scan Scan) :=
  match format[s.cursor]? with
  | none => insert print_value args s s.implicit_index_cursor
  | some next =>
    if next = percent then .ok (.again s.put_percent)
    else if is_digit next then
      let (cursor,sum) := digits (format.drop s.cursor) s.cursor 0
      numbered print_value args s cursor sum
    else insert print_value args s s.implicit_index_cursor

-- One turn of print_impl's loop; leaving it writes the last literal run.
def turn (format : List UInt8) (args : Tuple Arg) (s : Scan) : Except Abort (Turn Scan Scan) :=
  match format[s.cursor]? with
  | none => .ok (.done (s.write_literal format))
  | some c =>
    if c = percent then
      placeholder print_value format args {s.write_literal format with cursor := s.cursor + 1}
    else if c = escaped_percent then .ok (.again (s.write_literal format).put_percent)
    else .ok (.again {s with cursor := s.cursor + 1})

def start : Scan := ⟨0,0,0,0,[]⟩

def print_impl (format : List UInt8) (args : Tuple Arg) : Except Abort Scan :=
  loop .out_of_turns (turn print_value format args) (format.length + 1) start

end Printing

-- The grammar of the format rules. Every byte of a format belongs to one token.
inductive Token where
  | literal (byte : UInt8)
  | char_31
  | percents
  | placeholder (digits : List UInt8)
deriving DecidableEq, Repr

def Token.spelling : Token → List UInt8
  | .literal byte => [byte]
  | .char_31 => [escaped_percent]
  | .percents => [percent,percent]
  | .placeholder digits => percent :: digits

def tokens : List UInt8 → List Token
  | [] => []
  | c :: rest =>
    if c = percent then
      if rest.head? = some percent then .percents :: tokens rest.tail
      else .placeholder (rest.takeWhile is_digit) :: tokens (rest.dropWhile is_digit)
    else if c = escaped_percent then .char_31 :: tokens rest
    else .literal c :: tokens rest
termination_by format => format.length
decreasing_by
  · exact Nat.lt_succ_of_le (by simp)
  · exact Nat.lt_succ_of_le (List.length_dropWhile_le _ _)
  all_goals simp

def decimal (digits : List UInt8) : Nat := digits.foldl (fun value digit => 10 * value + (digit - 48).toNat) 0

-- The argument a placeholder designates, from 0 on; %00 designates none.
def designated (next : Nat) (digits : List UInt8) : Option Nat :=
  if 0 < decimal digits then some (decimal digits - 1)
  else if 2 ≤ digits.length then none else some next

-- What a call has printed, and where in the format its assertion failed.
structure Outcome where
  output : List UInt8
  asserted : Option Nat
deriving DecidableEq, Repr

def meaning {Arg : Type} (text : Arg → List UInt8) (args : List Arg) :
    Nat → Nat → List UInt8 → List Token → Outcome
  | _, _, output, [] => ⟨output,none⟩
  | next, cursor, output, .literal byte :: rest => meaning text args next (cursor + 1) (output ++ [byte]) rest
  | next, cursor, output, .char_31 :: rest => meaning text args next (cursor + 1) (output ++ [percent]) rest
  | next, cursor, output, .percents :: rest => meaning text args next (cursor + 2) (output ++ [percent]) rest
  | next, cursor, output, .placeholder digits :: rest =>
    let behind := cursor + 1 + digits.length
    match designated next digits with
    | none => meaning text args next behind output rest
    | some index =>
      match args[index]? with
      | some arg => meaning text args (index + 1) behind (output ++ text arg) rest
      | none => ⟨output,some behind⟩

-- The first placeholder without an argument, if there is one, is not numbered
-- or keeps a number that is too large when only its low 64 bits are looked at.
def Detected (arg_count : Nat) : Nat → List Token → Prop
  | _, [] => True
  | next, .placeholder digits :: rest =>
    match designated next digits with
    | none => Detected arg_count next rest
    | some index =>
      if index < arg_count then Detected arg_count (index + 1) rest
      else 0 < decimal digits →
        arg_count < decimal digits % 18446744073709551616 ∧ decimal digits % 18446744073709551616 ≤ 9223372036854775808
  | next, .literal _ :: rest | next, .char_31 :: rest | next, .percents :: rest => Detected arg_count next rest

theorem tokens_percents (rest : List UInt8) : tokens (percent :: percent :: rest) = .percents :: tokens rest := by
  simp [tokens]

theorem tokens_placeholder (single : rest.head? ≠ some percent) :
    tokens (percent :: rest) = .placeholder (rest.takeWhile is_digit) :: tokens (rest.dropWhile is_digit) := by
  rw [tokens,if_pos rfl,if_neg single]

theorem tokens_char_31 (rest : List UInt8) : tokens (escaped_percent :: rest) = .char_31 :: tokens rest := by
  rw [tokens,if_neg (by decide),if_pos rfl]

theorem tokens_literal (ordinary : c ≠ percent) (unescaped : c ≠ escaped_percent) :
    tokens (c :: rest) = .literal c :: tokens rest := by
  rw [tokens,if_neg ordinary,if_neg unescaped]

-- What stands behind the token that a format begins with.
def Token.Leads (rest : List UInt8) : Token → Prop
  | .literal byte => byte ≠ percent ∧ byte ≠ escaped_percent
  | .char_31 | .percents => True
  | .placeholder digits => (digits.all is_digit ∧ (rest.head?.all fun c => !is_digit c)) ∧
      (digits ++ rest).head? ≠ some percent

theorem tokens_cases (format : List UInt8) : format = [] ∨ ∃ token rest,
    (format = token.spelling ++ rest ∧ tokens format = token :: tokens rest) ∧ token.Leads rest := by
  cases format with
  | nil => exact .inl rfl
  | cons c rest =>
      by_cases marked : c = percent
      · subst marked
        by_cases doubled : rest.head? = some percent
        · obtain ⟨rest,rfl⟩ := List.head?_eq_some_iff.mp doubled
          exact .inr ⟨.percents,rest,⟨rfl,tokens_percents rest⟩,trivial⟩
        · refine .inr ⟨_,_,⟨?_,tokens_placeholder doubled⟩,⟨?_,?_⟩,?_⟩
          · simp [Token.spelling,List.takeWhile_append_dropWhile]
          · simp
          · cases behind : (rest.dropWhile is_digit).head? with
            | none => rfl
            | some c =>
                have stopped := List.head?_dropWhile_not is_digit rest
                simp only [behind] at stopped
                simp [stopped]
          · rwa [List.takeWhile_append_dropWhile]
      · by_cases escaped : c = escaped_percent
        · subst escaped
          exact .inr ⟨.char_31,rest,⟨rfl,tokens_char_31 rest⟩,trivial⟩
        · exact .inr ⟨.literal c,rest,⟨rfl,tokens_literal marked escaped⟩,marked,escaped⟩

theorem spelling_positive (token : Token) : 0 < token.spelling.length := by
  cases token <;> simp [Token.spelling]

theorem tokens_spell (format : List UInt8) : (tokens format).flatMap Token.spelling = format := by
  induction size : format.length using Nat.strongRecOn generalizing format with
  | ind n ih =>
      obtain rfl | ⟨token,rest,⟨rfl,split⟩,_⟩ := tokens_cases format
      · simp [tokens]
      · have shorter : rest.length < n := by
          rw [← size,List.length_append]
          exact Nat.lt_add_of_pos_left (spelling_positive token)
        rw [split,List.flatMap_cons,ih _ shorter rest rfl]

theorem ssize_step (value digit : Int) : ssize (ssize (ssize value * 10) + digit) = ssize (10 * value + digit) := by
  unfold ssize
  rw [Int.bmod_add_bmod,Int.bmod_add_cancel_right,Int.bmod_mul_bmod,Int.mul_comm]

theorem digits_sum (run rest : List UInt8) (cursor value : Nat) (all : run.all is_digit)
    (stops : rest.head?.all fun c => !is_digit c) :
    digits (run ++ rest) cursor (ssize value) =
      (cursor + run.length,ssize (run.foldl (fun value digit => 10 * value + (digit - 48).toNat) value : Nat)) := by
  induction run generalizing cursor value with
  | nil =>
      cases rest with
      | nil => rfl
      | cons c rest =>
          have other : is_digit c = false := by simpa using stops
          simp [digits,other]
  | cons c run ih =>
      obtain ⟨digit,all⟩ : is_digit c = true ∧ run.all is_digit = true := by simpa using all
      rw [List.cons_append,digits,if_pos digit,ssize_step]
      have next := ih (cursor + 1) (10 * value + (c - 48).toNat) all
      push_cast at next
      rw [next,List.foldl_cons,List.length_cons,Nat.add_assoc,Nat.add_comm 1]

theorem ssize_value (value : Int) :
    ssize value = if value % 18446744073709551616 < 9223372036854775808 then value % 18446744073709551616
      else value % 18446744073709551616 - 18446744073709551616 := by
  unfold ssize
  rw [Int.bmod_def]
  rfl

theorem ssize_small {n : Nat} (few : n < 9223372036854775808) : ssize n = n := by
  rw [ssize_value]
  omega

theorem ssize_caught (few : arg_count < 2147483648) :
    (ssize (number : Nat) ≠ 0 ∧ (arg_count : Nat) ≤ ssize (ssize number - 1)) ↔
      arg_count < number % 18446744073709551616 ∧ number % 18446744073709551616 ≤ 9223372036854775808 := by
  simp only [ssize_value]
  omega

-- At the head of the loop: what the scan has left behind, what is still to come,
-- and the output once the pending literal run is written.
structure Standing (s : Scan) (format done rest output : List UInt8) : Prop where
  split : format = done ++ rest
  cursor : s.cursor = done.length
  printed : s.printed ≤ done.length
  pending : s.output ++ done.drop s.printed = output

theorem Standing.here (standing : Standing s format done rest output) : format[s.cursor]? = rest.head? := by
  rw [standing.split,standing.cursor,List.getElem?_append_right (Nat.le_refl _),Nat.sub_self,List.head?_eq_getElem?]

theorem Standing.written (standing : Standing s format done rest output) :
    (s.write_literal format).output = output := by
  unfold Scan.write_literal slice
  rw [standing.split,standing.cursor,List.take_left]
  exact standing.pending

-- Everything up to the cursor is written.
theorem standing_settled (split : format = done ++ rest) (cursor : t.cursor = done.length)
    (printed : t.printed = done.length) : Standing t format done rest t.output := by
  refine ⟨split,cursor,printed.le,?_⟩
  rw [printed,List.drop_length,List.append_nil]

section Turns
variable {Arg : Type} {print_value : Arg → Printed} {args : Tuple Arg} {s : Scan} {format done rest output : List UInt8}
  {token : Token}

theorem turn_end (print_value : Arg → Printed) (args : Tuple Arg) (standing : Standing s format done [] output) :
    ∃ t, turn print_value format args s = .ok (.done t) ∧ t.output = output := by
  refine ⟨s.write_literal format,?_,standing.written⟩
  unfold turn
  rw [standing.here]
  rfl

theorem turn_literal (print_value : Arg → Printed) (args : Tuple Arg)
    (standing : Standing s format done (c :: rest) output) (ordinary : c ≠ percent)
    (unescaped : c ≠ escaped_percent) :
    ∃ t, turn print_value format args s = .ok (.again t) ∧
      Standing t format (done ++ [c]) rest (output ++ [c]) ∧ t.implicit_index_cursor = s.implicit_index_cursor := by
  refine ⟨{s with cursor := s.cursor + 1},?_,⟨?_,?_,?_,?_⟩,rfl⟩
  · unfold turn
    rw [standing.here]
    simp only [List.head?_cons,if_neg ordinary,if_neg unescaped]
  · rw [standing.split,List.append_assoc,List.singleton_append]
  · simp [standing.cursor]
  · exact standing.printed.trans (by simp)
  · rw [List.drop_append_of_le_length standing.printed,← List.append_assoc,standing.pending]

theorem turn_char_31 (print_value : Arg → Printed) (args : Tuple Arg)
    (standing : Standing s format done (escaped_percent :: rest) output) :
    ∃ t, turn print_value format args s = .ok (.again t) ∧
      Standing t format (done ++ [escaped_percent]) rest (output ++ [percent]) ∧
      t.implicit_index_cursor = s.implicit_index_cursor := by
  refine ⟨(s.write_literal format).put_percent,?_,?_,rfl⟩
  · unfold turn
    rw [standing.here]
    simp [escaped_percent,percent]
  · rw [← standing.written]
    apply standing_settled
    · rw [standing.split,List.append_assoc,List.singleton_append]
    · simp [Scan.put_percent,Scan.write_literal,standing.cursor]
    · simp [Scan.put_percent,Scan.write_literal,standing.cursor]

-- Behind a '%' the literal run before it is written.
theorem turn_percent (print_value : Arg → Printed) (args : Tuple Arg)
    (standing : Standing s format done (percent :: rest) output) :
    turn print_value format args s =
        placeholder print_value format args {s.write_literal format with cursor := (done ++ [percent]).length} ∧
      format = (done ++ [percent]) ++ rest := by
  refine ⟨?_,?_⟩
  · unfold turn
    rw [standing.here,standing.cursor]
    simp
  · rw [standing.split,List.append_assoc,List.singleton_append]

theorem turn_percents (print_value : Arg → Printed) (args : Tuple Arg)
    (standing : Standing s format done (percent :: percent :: rest) output) :
    ∃ t, turn print_value format args s = .ok (.again t) ∧
      Standing t format (done ++ [percent,percent]) rest (output ++ [percent]) ∧
      t.implicit_index_cursor = s.implicit_index_cursor := by
  obtain ⟨same,split⟩ := turn_percent print_value args standing
  have here : format[(done ++ [percent]).length]? = some percent := by
    rw [split,List.getElem?_append_right (Nat.le_refl _),Nat.sub_self]
    rfl
  refine ⟨Scan.put_percent {s.write_literal format with cursor := (done ++ [percent]).length},?_,?_,rfl⟩
  · rw [same]
    unfold placeholder
    rw [here]
    simp
  · rw [← standing.written]
    apply standing_settled
    · rw [split,List.append_assoc,List.append_assoc]
      rfl
    · simp [Scan.put_percent]
    · simp [Scan.put_percent]

theorem placeholder_numbered (here : format[s.cursor]? = some next) (different : next ≠ percent)
    (is : is_digit next = true)
    (sum : digits (format.drop s.cursor) s.cursor 0 = (cursor,value)) :
    placeholder print_value format args s = numbered print_value args s cursor value := by
  unfold placeholder
  rw [here]
  simp only [if_neg different,if_pos is,sum]

-- The code's reading of the digits of a placeholder.
def selected (implicit : Int) (run : List UInt8) : Option Int :=
  if ssize (decimal run) = 0 then (if 2 ≤ run.length then none else some implicit)
  else some (ssize (ssize (decimal run) - 1))

theorem ssize_zero : ssize 0 = 0 := by
  simpa using ssize_small (n := 0) (by decide)

theorem selected_zero (zero : ssize (decimal run) = 0) (implicit : Int) :
    selected implicit run = if 2 ≤ run.length then none else some implicit := by
  unfold selected
  exact if_pos zero

theorem selected_number (number : ssize (decimal run) ≠ 0) (implicit : Int) :
    selected implicit run = some (ssize (ssize (decimal run) - 1)) := by
  unfold selected
  exact if_neg number

theorem digits_decimal (run rest : List UInt8) (cursor : Nat) (all : run.all is_digit)
    (stops : rest.head?.all fun c => !is_digit c) :
    digits (run ++ rest) cursor 0 = (cursor + run.length,ssize (decimal run)) := by
  have summed := digits_sum run rest cursor 0 all stops
  rw [Nat.cast_zero,ssize_zero] at summed
  unfold decimal
  exact summed

theorem selected_bare (implicit : Int) : selected implicit [] = some implicit := by
  have none : ((decimal [] : Nat) : Int) = 0 := rfl
  unfold selected
  rw [none,if_pos ssize_zero]
  rfl

def behind (s : Scan) (format done run : List UInt8) : Scan :=
  {s.write_literal format with cursor := (done ++ percent :: run).length}

theorem turn_placeholder (standing : Standing s format done (percent :: (run ++ rest)) output)
    (leads : Token.Leads rest (.placeholder run)) :
    turn print_value format args s = match selected s.implicit_index_cursor run with
      | none => .ok (.again {behind s format done run with printed := (done ++ percent :: run).length})
      | some value => insert print_value args (behind s format done run) value := by
  obtain ⟨⟨all,stops⟩,single⟩ := leads
  obtain ⟨same,split⟩ := turn_percent print_value args standing
  have here : format[(done ++ [percent]).length]? = (run ++ rest).head? := by
    rw [split,List.getElem?_append_right (Nat.le_refl _),Nat.sub_self,List.head?_eq_getElem?]
  rw [same]
  cases run with
  | nil =>
      unfold placeholder
      rw [here,selected_bare]
      cases rest with
      | nil => rfl
      | cons c rest =>
          have other : is_digit c = false := by simpa using stops
          have different : c ≠ percent := fun same => single (by rw [same]; rfl)
          simp [other,different,behind]
          rfl
  | cons digit run =>
      obtain ⟨is,_⟩ : is_digit digit = true ∧ run.all is_digit = true := by simpa using all
      have different : digit ≠ percent := fun same => single (by rw [same]; rfl)
      have drops : format.drop (done ++ [percent]).length = (digit :: run) ++ rest := by rw [split,List.drop_left]
      have sum : digits (format.drop (done ++ [percent]).length) (done ++ [percent]).length 0 =
          ((done ++ percent :: digit :: run).length,ssize (decimal (digit :: run))) := by
        rw [drops,digits_decimal _ _ _ all stops]
        have ends : (done ++ [percent]).length + (digit :: run).length = (done ++ percent :: digit :: run).length := by
          simp
          omega
        rw [ends]
      have count : (done ++ percent :: digit :: run).length - (done ++ [percent]).length = (digit :: run).length := by
        simp
        omega
      rw [placeholder_numbered here different is sum]
      unfold numbered
      by_cases zero : ssize (decimal (digit :: run)) = 0
      · rw [selected_zero zero,if_pos zero,count]
        by_cases longer : 2 ≤ (digit :: run).length
        · rw [if_pos longer,if_pos longer]
          rfl
        · rw [if_neg longer,if_neg longer]
          rfl
      · rw [selected_number zero,if_neg zero]
        rfl

theorem insert_asserts (missing : (args.values.length : Int) ≤ value) :
    insert print_value args s value = .error (.assertion s.cursor s.output) := by
  unfold insert
  exact if_pos missing

theorem insert_moves (print_value : Arg → Printed) (args : Tuple Arg) (s : Scan)
    (split : format = done ++ rest) (cursor : s.cursor = done.length) (value : Int) :
    (∃ t text, insert print_value args s value = .ok (.again t) ∧ Standing t format done rest text) ∨
      insert print_value args s value = .error (.assertion done.length s.output) := by
  unfold insert
  split
  · rw [cursor]
    exact .inr rfl
  · exact .inl ⟨_,_,rfl,standing_settled split cursor cursor⟩

theorem print_arg_at_found (values : List Arg) (position index : Nat) (found : values[index]? = some arg) :
    print_arg_at print_value values position (position + index : Nat) = print_value arg := by
  induction values generalizing position index with
  | nil => cases found
  | cons first values ih =>
      unfold print_arg_at
      cases index with
      | zero =>
          cases found
          exact if_pos rfl
      | succ index =>
          have next := ih (position + 1) index found
          have later : position + (index + 1) = position + 1 + index := by omega
          rw [if_neg (by omega),later]
          exact next

theorem insert_prints (print_value : Arg → Printed) (s : Scan) {index : Nat} (found : args.values[index]? = some arg)
    (split : format = done ++ rest) (cursor : s.cursor = done.length) :
    ∃ t, insert print_value args s index = .ok (.again t) ∧
      Standing t format done rest (s.output ++ (print_value arg).text) ∧ t.implicit_index_cursor = (index + 1 : Nat) := by
  obtain ⟨bound,_⟩ := List.getElem?_eq_some_iff.mp found
  have fits := args.fits
  have printed : print_arg_at print_value args.values 0 index = print_value arg := by
    simpa using print_arg_at_found args.values 0 index found
  unfold insert
  rw [if_neg (by omega),printed]
  have next : ssize ((index : Int) + 1) = (index + 1 : Nat) := by
    have small := ssize_small (n := index + 1) (by omega)
    push_cast at small ⊢
    exact small
  refine ⟨_,rfl,standing_settled split cursor cursor,?_⟩
  simp only [next]

theorem behind_split (standing : Standing s format done (percent :: (run ++ rest)) output) :
    format = (done ++ percent :: run) ++ rest ∧ (behind s format done run).output = output := by
  refine ⟨?_,standing.written⟩
  rw [standing.split,List.append_assoc,List.cons_append]

-- Whatever a turn does, it consumes the next token.
theorem turn_moves (print_value : Arg → Printed) (args : Tuple Arg)
    (standing : Standing s format done (token.spelling ++ rest) output) (leads : token.Leads rest) :
    (∃ t text, turn print_value format args s = .ok (.again t) ∧ Standing t format (done ++ token.spelling) rest text) ∨
      turn print_value format args s = .error (.assertion (done ++ token.spelling).length output) := by
  cases token with
  | literal c =>
      obtain ⟨t,step,next,_⟩ := turn_literal print_value args standing leads.1 leads.2
      exact .inl ⟨t,_,step,next⟩
  | char_31 =>
      obtain ⟨t,step,next,_⟩ := turn_char_31 print_value args standing
      exact .inl ⟨t,_,step,next⟩
  | percents =>
      obtain ⟨t,step,next,_⟩ := turn_percents print_value args standing
      exact .inl ⟨t,_,step,next⟩
  | placeholder run =>
      obtain ⟨split,written⟩ := behind_split standing
      rw [turn_placeholder standing leads]
      cases selected s.implicit_index_cursor run with
      | none => exact .inl ⟨_,_,rfl,standing_settled split rfl rfl⟩
      | some value =>
          have moves := insert_moves print_value args (behind s format done run) split rfl value
          rwa [written] at moves

theorem placeholder_nothing (print_value : Arg → Printed) (args : Tuple Arg)
    (standing : Standing s format done (percent :: (run ++ rest)) output)
    (leads : Token.Leads rest (.placeholder run)) (nothing : designated next run = none) :
    ∃ t, turn print_value format args s = .ok (.again t) ∧
      Standing t format (done ++ percent :: run) rest output ∧ t.implicit_index_cursor = s.implicit_index_cursor := by
  obtain ⟨split,written⟩ := behind_split standing
  unfold designated at nothing
  split at nothing
  · cases nothing
  · rename_i none
    split at nothing
    · rename_i longer
      have zero : decimal run = 0 := by omega
      refine ⟨{behind s format done run with printed := (done ++ percent :: run).length},?_,?_,rfl⟩
      · rw [turn_placeholder standing leads,selected_zero (by rw [zero]; exact ssize_zero),if_pos longer]
      · rw [← written]
        exact standing_settled split rfl rfl
    · cases nothing

-- Where the grammar designates an argument the code selects the number it is
-- left with in 64 bits.
theorem selected_designated (designates : designated next run = some index) :
    (decimal run = 0 ∧ index = next ∧ ∀ implicit, selected implicit run = some implicit) ∨
      decimal run = index + 1 := by
  unfold designated at designates
  split at designates
  · cases designates
    exact .inr (by omega)
  · split at designates
    · cases designates
    · rename_i zero shorter
      cases designates
      have zero : decimal run = 0 := by omega
      refine .inl ⟨zero,rfl,fun implicit => ?_⟩
      rw [selected_zero (by rw [zero]; exact ssize_zero),if_neg shorter]

theorem placeholder_prints (standing : Standing s format done (percent :: (run ++ rest)) output)
    (leads : Token.Leads rest (.placeholder run)) (implicit : s.implicit_index_cursor = (next : Nat))
    (designates : designated next run = some index) (found : args.values[index]? = some arg) :
    ∃ t, turn print_value format args s = .ok (.again t) ∧
      Standing t format (done ++ percent :: run) rest (output ++ (print_value arg).text) ∧
      t.implicit_index_cursor = (index + 1 : Nat) := by
  obtain ⟨split,written⟩ := behind_split standing
  obtain ⟨bound,_⟩ := List.getElem?_eq_some_iff.mp found
  have fits := args.fits
  have chosen : selected s.implicit_index_cursor run = some (index : Int) := by
    obtain ⟨_,same,selects⟩ | number := selected_designated designates
    · rw [selects,implicit,same]
    · have small : ssize (decimal run) = decimal run := ssize_small (by omega)
      have less : ssize (decimal run - 1) = (index : Int) := by
        rw [number]
        push_cast
        rw [Int.add_sub_cancel]
        exact ssize_small (by omega)
      rw [selected_number (by rw [small]; omega),small,less]
  have prints := insert_prints print_value (behind s format done run) found split rfl
  rw [written] at prints
  rw [turn_placeholder standing leads,chosen]
  exact prints

theorem decimal_short (short : ¬ 2 ≤ run.length) : decimal run < 256 := by
  match run, short with
  | [], _ => decide
  | [digit], _ =>
      have bound := (digit - 48).toNat_lt
      simpa [decimal] using bound
  | _ :: _ :: _, short => exact absurd (by simp) short

theorem placeholder_missing (standing : Standing s format done (percent :: (run ++ rest)) output)
    (leads : Token.Leads rest (.placeholder run)) (implicit : s.implicit_index_cursor = (next : Nat))
    (designates : designated next run = some index) (missing : args.values.length ≤ index) :
    turn print_value format args s = .error (.assertion (done ++ percent :: run).length output) ↔
      (0 < decimal run → args.values.length < decimal run % 18446744073709551616 ∧
        decimal run % 18446744073709551616 ≤ 9223372036854775808) := by
  obtain ⟨split,written⟩ := behind_split standing
  have asserts (value : Int) (missing : (args.values.length : Int) ≤ value) :
      insert print_value args (behind s format done run) value =
        .error (.assertion (done ++ percent :: run).length output) := by
    rw [insert_asserts missing,written]
    rfl
  rw [turn_placeholder standing leads]
  obtain ⟨zero,same,selects⟩ | number := selected_designated designates
  · rw [selects,implicit]
    refine ⟨fun _ positive => absurd positive (by omega),fun _ => asserts next (by omega)⟩
  · rw [← ssize_caught args.fits]
    constructor
    · intro asserted _
      by_cases zero : ssize (decimal run) = 0
      · rw [selected_zero zero] at asserted
        by_cases longer : 2 ≤ run.length
        · rw [if_pos longer] at asserted
          cases asserted
        · have short := decimal_short longer
          rw [ssize_small (by omega)] at zero
          omega
      · refine ⟨zero,?_⟩
        rw [selected_number zero] at asserted
        by_contra present
        unfold insert at asserted
        dsimp only at asserted
        rw [if_neg present] at asserted
        cases asserted
    · intro caught
      obtain ⟨number,large⟩ := caught (by omega)
      rw [selected_number number]
      exact asserts _ large

-- An assertion fails behind the token that the turn consumes.
theorem asserted_later (turns : Nat) (standing : Standing s format done rest output)
    (asserted : loop .out_of_turns (turn print_value format args) turns s = .error (.assertion cursor text)) :
    done.length < cursor := by
  induction turns generalizing s done rest output with
  | zero => cases asserted
  | succ turns ih =>
      obtain rfl | ⟨token,rest,⟨rfl,_⟩,leads⟩ := tokens_cases rest
      · obtain ⟨t,step,_⟩ := turn_end print_value args standing
        rw [loop_done step] at asserted
        cases asserted
      · have longer : done.length < (done ++ token.spelling).length := by
          rw [List.length_append]
          exact Nat.lt_add_of_pos_right (spelling_positive token)
        obtain ⟨t,_,step,next⟩ | step := turn_moves print_value args standing leads
        · rw [loop_again step] at asserted
          exact longer.trans (ih next asserted)
        · rw [loop_error step] at asserted
          cases asserted
          exact longer

def observe : Except Abort Scan → Option Outcome
  | .ok s => some ⟨s.output,none⟩
  | .error (.assertion cursor output) => some ⟨output,some cursor⟩
  | .error .out_of_turns => none

-- The loop and the grammar agree exactly as long as a missing argument is
-- detected; the induction is over what is left of the format.
theorem loop_meaning (rest : List UInt8) (standing : Standing s format done rest output)
    (implicit : s.implicit_index_cursor = (next : Nat)) (turns : Nat) (enough : rest.length < turns) :
    observe (loop .out_of_turns (turn print_value format args) turns s) =
        some (meaning (fun arg => (print_value arg).text) args.values next done.length output (tokens rest)) ↔
      Detected args.values.length next (tokens rest) := by
  induction size : rest.length using Nat.strongRecOn generalizing rest s done output next turns with
  | ind n ih =>
      obtain ⟨turns,rfl⟩ : ∃ more, turns = more + 1 := ⟨turns - 1,by omega⟩
      obtain rfl | ⟨token,rest,⟨rfl,split⟩,leads⟩ := tokens_cases rest
      · obtain ⟨t,step,same⟩ := turn_end print_value args standing
        rw [loop_done step]
        simp [observe,meaning,Detected,tokens,same]
      · have shorter : rest.length < n := by
          rw [← size,List.length_append]
          exact Nat.lt_add_of_pos_left (spelling_positive token)
        have fewer : rest.length < turns := by omega
        rw [split]
        cases token with
        | literal c =>
            obtain ⟨t,step,after,same⟩ := turn_literal print_value args standing leads.1 leads.2
            have later := ih _ shorter rest after (same.trans implicit) turns fewer rfl
            rw [loop_again step,meaning,Detected]
            simpa using later
        | char_31 =>
            obtain ⟨t,step,after,same⟩ := turn_char_31 print_value args standing
            have later := ih _ shorter rest after (same.trans implicit) turns fewer rfl
            rw [loop_again step,meaning,Detected]
            simpa using later
        | percents =>
            obtain ⟨t,step,after,same⟩ := turn_percents print_value args standing
            have later := ih _ shorter rest after (same.trans implicit) turns fewer rfl
            rw [loop_again step,meaning,Detected]
            simpa using later
        | placeholder run =>
            have behind : done.length + 1 + run.length = (done ++ percent :: run).length := by
              simp
              omega
            rw [meaning,Detected,behind]
            cases designates : designated next run with
            | none =>
                obtain ⟨t,step,after,same⟩ :=
                  placeholder_nothing print_value args standing leads designates
                rw [loop_again step]
                exact ih _ shorter rest after (same.trans implicit) turns fewer rfl
            | some index =>
                dsimp only
                by_cases within : index < args.values.length
                · have found := List.getElem?_eq_getElem within
                  obtain ⟨t,step,after,same⟩ := placeholder_prints standing leads implicit designates found
                  rw [loop_again step,found,if_pos within]
                  exact ih _ shorter rest after same turns fewer rfl
                · have missing := Nat.le_of_not_lt within
                  rw [List.getElem?_eq_none missing,if_neg within,
                    ← placeholder_missing standing leads implicit designates missing]
                  constructor
                  · intro agrees
                    obtain ⟨t,_,step,after⟩ | step := turn_moves print_value args standing leads
                    · rw [loop_again step] at agrees
                      cases rest : loop .out_of_turns (turn print_value format args) turns t with
                      | ok s =>
                          rw [rest] at agrees
                          cases agrees
                      | error abort =>
                          rw [rest] at agrees
                          cases abort with
                          | assertion cursor text =>
                              have later := asserted_later turns after rest
                              simp only [observe,Option.some.injEq,Outcome.mk.injEq] at agrees
                              exact absurd agrees.2 later.ne'
                          | out_of_turns => cases agrees
                    · exact step
                  · intro step
                    rw [loop_error step]
                    rfl

-- The positions at which tokens end, from the cursor on.
def boundaries (cursor : Nat) : List Token → List Nat
  | [] => [cursor]
  | token :: rest => cursor :: boundaries (cursor + token.spelling.length) rest

-- The turns of the loop begin where the tokens do.
theorem trail_boundaries (print_value : Arg → Printed) (args : Tuple Arg) (turns : Nat) (rest : List UInt8)
    (standing : Standing s format done rest output) :
    (trail (turn print_value format args) turns s).map Scan.cursor <+: boundaries done.length (tokens rest) := by
  induction turns generalizing s done rest output with
  | zero => exact List.nil_prefix
  | succ turns ih =>
      obtain rfl | ⟨token,rest,⟨rfl,split⟩,leads⟩ := tokens_cases rest
      · obtain ⟨t,step,_⟩ := turn_end print_value args standing
        rw [trail_done step,tokens,List.map_singleton,standing.cursor]
        exact List.prefix_rfl
      · rw [split,boundaries]
        obtain ⟨t,text,step,after⟩ | step := turn_moves print_value args standing leads
        · have later := ih rest after
          rw [List.length_append] at later
          rw [trail_again step,List.map_cons,standing.cursor]
          exact List.cons_prefix_cons.mpr ⟨rfl,later⟩
        · rw [trail,step,List.map_cons,standing.cursor]
          exact List.cons_prefix_cons.mpr ⟨rfl,List.nil_prefix⟩

-- print_impl does what the format rules say: every byte of the format belongs to
-- one token, a turn of the loop consumes one token, the loop ends, and the output
-- and the assertion are those of the grammar.
structure Implements (print_value : Arg → Printed) (format : List UInt8) (args : Tuple Arg) : Prop where
  spelled : (tokens format).flatMap Token.spelling = format
  consumed : (trail (turn print_value format args) (format.length + 1) start).map Scan.cursor <+:
    boundaries 0 (tokens format)
  terminates : print_impl print_value format args ≠ .error .out_of_turns
  prints : observe (print_impl print_value format args) =
    some (meaning (fun arg => (print_value arg).text) args.values 0 0 [] (tokens format))

theorem start_standing (format : List UInt8) : Standing start format [] format [] := ⟨rfl,rfl,Nat.le_refl _,rfl⟩

theorem print_terminates (turns : Nat) (rest : List UInt8) (standing : Standing s format done rest output)
    (enough : rest.length < turns) :
    loop .out_of_turns (turn print_value format args) turns s ≠ .error .out_of_turns := by
  induction turns generalizing s done rest output with
  | zero => exact absurd enough (Nat.not_lt_zero _)
  | succ turns ih =>
      obtain rfl | ⟨token,rest,⟨rfl,_⟩,leads⟩ := tokens_cases rest
      · obtain ⟨t,step,_⟩ := turn_end print_value args standing
        rw [loop_done step]
        exact fun same => (nomatch same)
      · obtain ⟨t,text,step,after⟩ | step := turn_moves print_value args standing leads
        · have positive := spelling_positive token
          rw [List.length_append] at enough
          rw [loop_again step]
          exact ih rest after (by omega)
        · rw [loop_error step]
          exact fun same => (nomatch same)

theorem format_implemented (print_value : Arg → Printed) (format : List UInt8) (args : Tuple Arg) :
    Implements print_value format args ↔ Detected args.values.length 0 (tokens format) := by
  have standing := start_standing format
  have agrees : observe (print_impl print_value format args) =
        some (meaning (fun arg => (print_value arg).text) args.values 0 0 [] (tokens format)) ↔
      Detected args.values.length 0 (tokens format) :=
    loop_meaning format standing rfl (format.length + 1) (Nat.lt_succ_self _)
  constructor
  · intro implements
    exact agrees.mp implements.prints
  · intro detected
    exact ⟨tokens_spell format,trail_boundaries print_value args _ format standing,
      print_terminates _ format standing (Nat.lt_succ_self _),agrees.mpr detected⟩

end Turns

-- %18446744073709551617 prints the first argument.
set_option maxRecDepth 20000 in
theorem large_number_printed :
    ¬ ∀ (print_value : List UInt8 → Printed) (format : List UInt8) (args : Tuple (List UInt8)),
      Implements print_value format args := by
  intro all
  have implements := all (fun text => ⟨text,text.length⟩)
    [37,49,56,52,52,54,55,52,52,48,55,51,55,48,57,53,53,49,54,49,55] ⟨[[97]],by decide⟩
  have prints := implements.prints
  have placed : tokens [37,49,56,52,52,54,55,52,52,48,55,51,55,48,57,53,53,49,54,49,55] =
      [.placeholder [49,56,52,52,54,55,52,52,48,55,51,55,48,57,53,53,49,54,49,55]] := by
    exact (tokens_placeholder (by decide)).trans (by simp [tokens,is_digit])
  rw [placed] at prints
  revert prints
  decide

end FormatStrings
