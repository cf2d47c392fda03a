import Gameos.EmbeddedResources
import Mathlib.Data.List.TakeWhile

-- The lexer of tools/preprocessor.cc. A source is the list of its bytes.
namespace SourceLexer
open Preprocessor (isAlnum)
open FilesystemPaths (Text)

inductive TokenKind where
  | ended
  | identifier
  | number
  | literal
  | comment
  | punctuation
deriving DecidableEq, Repr

structure Token where
  kind : TokenKind
  begin : Nat
  finish : Nat
deriving DecidableEq, Repr

-- std::isspace, std::isalpha and std::isdigit of the "C" locale.
def isSpace (c : Char) : Bool := c == ' ' || ('\t' ≤ c && c ≤ '\r')

def isAlpha (c : Char) : Bool := ('A' ≤ c && c ≤ 'Z') || ('a' ≤ c && c ≤ 'z')

def isDigit (c : Char) : Bool := '0' ≤ c && c ≤ '9'

def isIdentifierStart (c : Char) : Bool := isAlpha c || c == '_'

def isIdentifierPart (c : Char) : Bool := isAlnum c || c == '_'

def isNumberPart (c : Char) : Bool := isAlnum c || c == '.' || c == '\''

def substr (input : Text) (position count : Nat) : Text := (input.drop position).take count

-- while (position < input.size() && test(input[position])) position++
def skipWhile (test : Char → Bool) (input : Text) (position : Nat) : Nat :=
  position + ((input.drop position).takeWhile test).length

-- How many characters the loop of a block comment takes from the ones after "/*".
def closeComment : Text → Nat
  | [] => 0
  | c :: rest => if substr (c :: rest) 0 2 = "*/".toList then 2 else closeComment rest + 1

def literalPrefixes : List Text := ["u8R","uR","UR","LR","u8","u","U","L","R"].map String.toList

-- Every position a quote is found at is one of the input.
def prefixedQuotePosition (input : Text) (position : Fin input.length) : Option (Fin input.length) :=
  if input[position] = '"' then some position
  else literalPrefixes.findSome? fun word =>
    if inside : substr input position word.length = word ∧ position.val + word.length < input.length then
      if input[position.val + word.length] = '"' then some ⟨position.val + word.length,inside.2⟩ else none
    else none

-- How many characters the loop of scan_quoted takes.
def closeQuote (mark : Char) : Text → Nat
  | [] => 0
  | [_] => 1
  | c :: d :: rest =>
    if c = '\\' then closeQuote mark rest + 2
    else if c = mark then 1
    else closeQuote mark (d :: rest) + 1

def scanQuoted (input : Text) (quote : Fin input.length) : Nat :=
  quote.val + 1 + closeQuote input[quote] (input.drop (quote.val + 1))

-- How many characters the loop of scan_raw_literal takes.
def closeRaw (delimiter : Text) : Text → Nat
  | [] => 0
  | c :: rest =>
    if (')' :: delimiter ++ ['"']).isPrefixOf (c :: rest) then delimiter.length + 2 else closeRaw delimiter rest + 1

def scanRawLiteral (input : Text) (quote : Fin input.length) : Nat :=
  let after := input.drop (quote.val + 1)
  if '(' ∈ after then
    let delimiter := after.takeWhile (· ≠ '(')
    let position := quote.val + 1 + delimiter.length + 1
    position + closeRaw delimiter (input.drop position)
  else scanQuoted input quote

-- input[quote - 1] == 'R' || (quote >= 2 && input[quote - 2] == 'R')
def rawQuote (input : Text) (begin : Nat) (quote : Fin input.length) : Bool :=
  if after : begin < quote.val then
    input[quote.val - 1] == 'R' || (2 ≤ quote.val && input[quote.val - 2] == 'R')
  else false

def punctuations : List Text :=
  ["->*","<<=",">>=","...","::","->","<=",">=","==","!=","++","--",
    "&&","||","+=","-=","*=","/=","%=","<<",">>","&=","|=","^="].map String.toList

-- The token that begins at a character of the input.
def tokenAt (input : Text) (position : Fin input.length) : Token :=
  let begin := position.val
  let c := input[position]
  if substr input begin 2 = "//".toList then ⟨.comment,begin,skipWhile (· ≠ '\n') input (begin + 2)⟩
  else if substr input begin 2 = "/*".toList then ⟨.comment,begin,begin + 2 + closeComment (input.drop (begin + 2))⟩
  else
    match prefixedQuotePosition input position with
    | some quote =>
      if rawQuote input begin quote then ⟨.literal,begin,scanRawLiteral input quote⟩
      else ⟨.literal,begin,scanQuoted input quote⟩
    | none =>
      if c = '"' ∨ c = '\'' then ⟨.literal,begin,scanQuoted input position⟩
      else if isIdentifierStart c then ⟨.identifier,begin,skipWhile isIdentifierPart input (begin + 1)⟩
      else if isDigit c then ⟨.number,begin,skipWhile isNumberPart input (begin + 1)⟩
      else
        match punctuations.find? fun word => substr input begin word.length = word with
        | some word => ⟨.punctuation,begin,begin + word.length⟩
        | none => ⟨.punctuation,begin,begin + 1⟩

-- next_token; the lexer's position after the call is the end of the token.
def nextToken (input : Text) (position : Nat) : Token :=
  let begin := skipWhile isSpace input position
  if inside : begin < input.length then tokenAt input ⟨begin,inside⟩
  else ⟨.ended,input.length,input.length⟩

def text (input : Text) (token : Token) : Text := substr input token.begin (token.finish - token.begin)


theorem substr_fits (found : substr input p word.length = word) (filled : word ≠ []) :
    p + word.length ≤ input.length := by
  have size := congrArg List.length found
  rw [substr,List.length_take,List.length_drop] at size
  have := List.length_pos_of_ne_nil filled
  omega

theorem skipWhile_bounds (test : Char → Bool) (input : Text) (p : Nat) :
    p ≤ skipWhile test input p ∧ (p ≤ input.length → skipWhile test input p ≤ input.length) := by
  have size := List.IsPrefix.length_le (List.takeWhile_prefix (p := test) (l := input.drop p))
  rw [List.length_drop] at size
  refine ⟨Nat.le_add_right _ _,fun inside => ?_⟩
  unfold skipWhile
  omega

theorem closeComment_le (cs : Text) : closeComment cs ≤ cs.length := by
  induction cs with
  | nil => exact Nat.le_refl 0
  | cons c rest ih =>
      rw [closeComment]
      split
      case isTrue closed =>
        have fits : 0 + "*/".toList.length ≤ (c :: rest).length := substr_fits closed (by decide)
        exact fits
      case isFalse => exact Nat.succ_le_succ ih

theorem closeQuote_le (mark : Char) (cs : Text) : closeQuote mark cs ≤ cs.length := by
  fun_induction closeQuote mark cs with
  | case1 => exact Nat.le_refl 0
  | case2 => exact Nat.le_refl 1
  | case3 d rest ih => exact Nat.add_le_add_right ih 2
  | case4 d rest plain => exact Nat.le_add_left 1 _
  | case5 c d rest plain more ih => exact Nat.succ_le_succ ih

theorem closeRaw_le (delimiter cs : Text) : closeRaw delimiter cs ≤ cs.length := by
  induction cs with
  | nil => exact Nat.le_refl 0
  | cons c rest ih =>
      rw [closeRaw]
      split
      case isTrue closed =>
        have size := (List.isPrefixOf_iff_prefix.mp closed).length_le
        simpa using size
      case isFalse => exact Nat.succ_le_succ ih

theorem scanQuoted_bounds (input : Text) (quote : Fin input.length) :
    quote.val < scanQuoted input quote ∧ scanQuoted input quote ≤ input.length := by
  have size := closeQuote_le input[quote] (input.drop (quote.val + 1))
  rw [List.length_drop] at size
  have inside := quote.isLt
  unfold scanQuoted
  omega

theorem scanRawLiteral_bounds (input : Text) (quote : Fin input.length) :
    quote.val < scanRawLiteral input quote ∧ scanRawLiteral input quote ≤ input.length := by
  unfold scanRawLiteral
  dsimp only
  split
  case isTrue opened =>
    generalize position : quote.val + 1 + ((input.drop (quote.val + 1)).takeWhile (· ≠ '(')).length + 1 = after
    have inside := quote.isLt
    have size := closeRaw_le ((input.drop (quote.val + 1)).takeWhile (· ≠ '(')) (input.drop after)
    have room : ((input.drop (quote.val + 1)).takeWhile (· ≠ '(')).length < (input.drop (quote.val + 1)).length := by
      have found := List.takeWhile_append_dropWhile (p := (· ≠ '(')) (l := input.drop (quote.val + 1))
      have rest : (input.drop (quote.val + 1)).dropWhile (· ≠ '(') ≠ [] := by
        intro none
        have every := List.dropWhile_eq_nil_iff.mp none '(' opened
        simp at every
      have := congrArg List.length found
      rw [List.length_append] at this
      have := List.length_pos_of_ne_nil rest
      omega
    rw [List.length_drop] at size room
    omega
  case isFalse => exact scanQuoted_bounds input quote

theorem prefixedQuotePosition_found {input : Text} {position quote : Fin input.length}
    (found : prefixedQuotePosition input position = some quote) :
    position.val ≤ quote.val ∧ input[quote] = '"' := by
  unfold prefixedQuotePosition at found
  split at found
  case isTrue here =>
    cases found
    exact ⟨Nat.le_refl _,here⟩
  case isFalse =>
    obtain ⟨word,_,found⟩ := List.exists_of_findSome?_eq_some found
    split at found
    case isFalse => cases found
    case isTrue inside =>
      split at found
      case isFalse => cases found
      case isTrue mark =>
        cases found
        exact ⟨Nat.le_add_right _ _,mark⟩

theorem punctuation_filled (listed : word ∈ punctuations) : word ≠ [] := by
  intro empty
  subst empty
  revert listed
  decide

-- A token is never empty and stays in the input.
theorem tokenAt_bounds (input : Text) (position : Fin input.length) :
    (tokenAt input position).kind ≠ .ended ∧ (tokenAt input position).begin = position.val ∧
      position.val < (tokenAt input position).finish ∧ (tokenAt input position).finish ≤ input.length := by
  have inside := position.isLt
  unfold tokenAt
  dsimp only
  split
  case isTrue line =>
    have fits : position.val + "//".toList.length ≤ input.length := substr_fits line (by decide)
    have bounds := skipWhile_bounds (· ≠ '\n') input (position.val + 2)
    have size : "//".toList.length = 2 := rfl
    exact ⟨nofun,rfl,by dsimp only; omega,bounds.2 (by omega)⟩
  case isFalse =>
  split
  case isTrue block =>
    have fits : position.val + "/*".toList.length ≤ input.length := substr_fits block (by decide)
    have size := closeComment_le (input.drop (position.val + 2))
    rw [List.length_drop] at size
    have two : "/*".toList.length = 2 := rfl
    exact ⟨nofun,rfl,by dsimp only; omega,by dsimp only; omega⟩
  case isFalse =>
  split
  case h_1 quote found =>
    have after := (prefixedQuotePosition_found found).1
    have quoted := scanQuoted_bounds input quote
    have raw := scanRawLiteral_bounds input quote
    split
    · exact ⟨nofun,rfl,by dsimp only; omega,raw.2⟩
    · exact ⟨nofun,rfl,by dsimp only; omega,quoted.2⟩
  case h_2 =>
  split
  case isTrue =>
    exact ⟨nofun,rfl,scanQuoted_bounds input position⟩
  case isFalse =>
  split
  case isTrue =>
    have bounds := skipWhile_bounds isIdentifierPart input (position.val + 1)
    exact ⟨nofun,rfl,by dsimp only; omega,bounds.2 (by omega)⟩
  case isFalse =>
  split
  case isTrue =>
    have bounds := skipWhile_bounds isNumberPart input (position.val + 1)
    exact ⟨nofun,rfl,by dsimp only; omega,bounds.2 (by omega)⟩
  case isFalse =>
  split
  case h_1 word found =>
    have fits := substr_fits (by simpa using List.find?_some found) (punctuation_filled (List.mem_of_find?_eq_some found))
    have filled := List.length_pos_of_ne_nil (punctuation_filled (List.mem_of_find?_eq_some found))
    exact ⟨nofun,rfl,by dsimp only; omega,fits⟩
  case h_2 => exact ⟨nofun,rfl,by dsimp only; omega,by dsimp only; omega⟩


-- Where a call stands: spaces, then the token, or spaces up to the end.
theorem nextToken_cases (input : Text) (p : Nat) :
    (nextToken input p = ⟨.ended,input.length,input.length⟩ ∧ ∀ c ∈ input.drop p,isSpace c = true) ∨
      ∃ inside : (nextToken input p).begin < input.length,
        nextToken input p = tokenAt input ⟨(nextToken input p).begin,inside⟩ ∧
        p ≤ (nextToken input p).begin ∧ ∀ c ∈ substr input p ((nextToken input p).begin - p),isSpace c = true := by
  have bounds := skipWhile_bounds isSpace input p
  by_cases inside : skipWhile isSpace input p < input.length
  · right
    have same : nextToken input p = tokenAt input ⟨skipWhile isSpace input p,inside⟩ := dif_pos inside
    have begin : (nextToken input p).begin = skipWhile isSpace input p := by rw [same]; exact (tokenAt_bounds _ _).2.1
    refine ⟨begin.symm ▸ inside,?_,begin.symm ▸ bounds.1,fun c member => ?_⟩
    · exact same.trans (congrArg (tokenAt input) (Fin.ext begin.symm))
    · rw [begin] at member
      have gap : substr input p (skipWhile isSpace input p - p) = (input.drop p).takeWhile isSpace := by
        rw [substr,skipWhile,Nat.add_sub_cancel_left]
        exact (List.prefix_iff_eq_take.mp (List.takeWhile_prefix _)).symm
      rw [gap] at member
      exact List.mem_takeWhile_imp member
  · left
    refine ⟨dif_neg inside,fun c member => ?_⟩
    have size := List.takeWhile_prefix (p := isSpace) (l := input.drop p)
    have whole : (input.drop p).takeWhile isSpace = input.drop p := by
      refine size.eq_of_length_le ?_
      rw [List.length_drop]
      unfold skipWhile at inside
      omega
    rw [← whole] at member
    exact List.mem_takeWhile_imp member

theorem nextToken_bounds (some : (nextToken input p).kind ≠ .ended) :
    p ≤ (nextToken input p).begin ∧ (nextToken input p).begin < (nextToken input p).finish ∧
      (nextToken input p).finish ≤ input.length := by
  obtain ⟨ended,_⟩ | ⟨inside,same,after,_⟩ := nextToken_cases input p
  · rw [ended] at some
    exact (some rfl).elim
  · obtain ⟨_,_,longer,fits⟩ := tokenAt_bounds input ⟨_,inside⟩
    rw [← same] at longer fits
    exact ⟨after,longer,fits⟩

theorem nextToken_ended (none : (nextToken input p).kind = .ended) :
    nextToken input p = ⟨.ended,input.length,input.length⟩ ∧ ∀ c ∈ input.drop p,isSpace c = true := by
  obtain ended | ⟨inside,same,_⟩ := nextToken_cases input p
  · exact ended
  · rw [same] at none
    exact ((tokenAt_bounds input ⟨_,inside⟩).1 none).elim

-- The tokens repeated calls answer with before END.
def tokensFrom (input : Text) : Nat → Nat → List Token
  | 0,_ => []
  | fuel + 1,position =>
    let token := nextToken input position
    if token.kind = .ended then [] else token :: tokensFrom input fuel token.finish

def tokens (input : Text) (position : Nat) : List Token := tokensFrom input input.length position

theorem tokensFrom_enough (input : Text) (fuel more p : Nat) (enough : input.length - p ≤ fuel) (room : fuel ≤ more) :
    tokensFrom input fuel p = tokensFrom input more p := by
  induction fuel generalizing more p with
  | zero =>
      cases more with
      | zero => rfl
      | succ more =>
          rw [tokensFrom,tokensFrom]
          by_cases some : (nextToken input p).kind = .ended
          · rw [if_pos some]
          · have := nextToken_bounds some
            omega
  | succ fuel ih =>
      cases more with
      | zero => omega
      | succ more =>
          rw [tokensFrom,tokensFrom]
          by_cases some : (nextToken input p).kind = .ended
          · rw [if_pos some,if_pos some]
          · have := nextToken_bounds some
            rw [if_neg some,if_neg some,ih more _ (by omega) (by omega)]

theorem tokens_step (input : Text) (p : Nat) :
    tokens input p = if (nextToken input p).kind = .ended then []
      else nextToken input p :: tokens input (nextToken input p).finish := by
  unfold tokens
  rw [tokensFrom_enough input input.length (input.length + 1) p (by omega) (by omega),tokensFrom]

-- What holds of every token and is handed on from one call to the next.
theorem tokens_induction {motive : Nat → List Token → Prop} (input : Text)
    (ended : ∀ p,(nextToken input p).kind = .ended → motive p [])
    (step : ∀ p,(nextToken input p).kind ≠ .ended → ∀ rest,motive (nextToken input p).finish rest →
      motive p (nextToken input p :: rest)) (p : Nat) : motive p (tokens input p) := by
  induction size : input.length - p using Nat.strongRecOn generalizing p with
  | ind n ih =>
      rw [tokens_step]
      by_cases last : (nextToken input p).kind = .ended
      · rw [if_pos last]
        exact ended p last
      · have := nextToken_bounds last
        rw [if_neg last]
        exact step p last _ (ih (input.length - (nextToken input p).finish) (by omega) _ rfl)

theorem tokens_bounds (input : Text) (p : Nat) : ∀ token ∈ tokens input p,
    token.kind ≠ .ended ∧ p ≤ token.begin ∧ token.begin < token.finish ∧ token.finish ≤ input.length := by
  refine tokens_induction (motive := fun p list => ∀ token ∈ list,
    token.kind ≠ .ended ∧ p ≤ token.begin ∧ token.begin < token.finish ∧ token.finish ≤ input.length) input ?_ ?_ p
  · intro p _ token member
    cases member
  · intro p some rest ih token member
    have bounds := nextToken_bounds some
    rcases List.mem_cons.mp member with rfl | later
    · exact ⟨some,bounds⟩
    · obtain ⟨kind,after,longer,fits⟩ := ih token later
      exact ⟨kind,by omega,longer,fits⟩

-- The calls of next_token in turn, on a lexer set at a position.
def call (input : Text) (position : Nat) : Nat → Token
  | 0 => nextToken input position
  | n + 1 => nextToken input (call input position n).finish

-- Tokens follow one another, cover all that is no space, and then there is END.
structure Tokenized (input : Text) (position count : Nat) : Prop where
  filled : ∀ i < count,(call input position i).kind ≠ .ended ∧ position ≤ (call input position i).begin ∧
    (call input position i).begin < (call input position i).finish ∧ (call input position i).finish ≤ input.length
  ordered : ∀ i j,i < j → j < count → (call input position i).finish ≤ (call input position j).begin
  covered : ∀ k,position ≤ k → ∀ inside : k < input.length,isSpace input[k] = false →
    ∃ i < count,(call input position i).begin ≤ k ∧ k < (call input position i).finish
  ended : ∀ i,count ≤ i → call input position i = ⟨.ended,input.length,input.length⟩

theorem call_next (input : Text) (p n : Nat) :
    call input p (n + 1) = call input (nextToken input p).finish n := by
  induction n with
  | zero => rfl
  | succ n ih => rw [call,ih,call]

theorem nextToken_past (input : Text) : nextToken input input.length = ⟨.ended,input.length,input.length⟩ := by
  have past := (skipWhile_bounds isSpace input input.length).1
  exact dif_neg (by omega)

theorem tokenized_none (none : (nextToken input p).kind = .ended) : Tokenized input p 0 where
  filled _ before := (Nat.not_lt_zero _ before).elim
  ordered _ _ _ before := (Nat.not_lt_zero _ before).elim
  covered k after inside dark := by
    have member : input[k] ∈ input.drop p := by
      have := List.getElem_mem (l := input.drop p) (n := k - p) (by rw [List.length_drop]; omega)
      simpa [List.getElem_drop,Nat.add_sub_cancel' after] using this
    rw [(nextToken_ended none).2 _ member] at dark
    cases dark
  ended i _ := by
    cases i with
    | zero => exact (nextToken_ended none).1
    | succ i =>
        induction i with
        | zero => rw [call,call,(nextToken_ended none).1,nextToken_past]
        | succ i ih => rw [call,ih (Nat.zero_le _),nextToken_past]

theorem tokenized_step (some : (nextToken input p).kind ≠ .ended)
    (rest : Tokenized input (nextToken input p).finish count) : Tokenized input p (count + 1) := by
  have bounds := nextToken_bounds some
  refine ⟨fun i before => ?_,fun i j order before => ?_,fun k after inside dark => ?_,fun i past => ?_⟩
  · cases i with
    | zero => exact ⟨some,bounds⟩
    | succ i =>
        rw [call_next]
        obtain ⟨kind,after,longer,fits⟩ := rest.filled i (by omega)
        exact ⟨kind,by omega,longer,fits⟩
  · cases j with
    | zero => omega
    | succ j =>
        rw [call_next]
        cases i with
        | zero => exact (rest.filled j (by omega)).2.1
        | succ i =>
            rw [call_next]
            exact rest.ordered i j (by omega) (by omega)
  · by_cases later : (nextToken input p).finish ≤ k
    · obtain ⟨i,before,here⟩ := rest.covered k later inside dark
      exact ⟨i + 1,by omega,by rwa [call_next]⟩
    · refine ⟨0,by omega,?_,Nat.lt_of_not_le later⟩
      -- what lies before the token is spaces
      refine Nat.le_of_not_lt fun gap => ?_
      obtain ⟨ended,_⟩ | ⟨_,_,_,spaces⟩ := nextToken_cases input p
      · rw [ended] at some
        exact some rfl
      · have member : input[k] ∈ substr input p ((nextToken input p).begin - p) := by
          have gap : k < (nextToken input p).begin := gap
          have room : k - p < (substr input p ((nextToken input p).begin - p)).length := by
            rw [substr,List.length_take,List.length_drop]
            omega
          have := List.getElem_mem room
          simpa [substr,List.getElem_take,List.getElem_drop,Nat.add_sub_cancel' after] using this
        rw [spaces _ member] at dark
        cases dark
  · cases i with
    | zero => omega
    | succ i => rw [call_next,rest.ended i (by omega)]

theorem tokenized (input : Text) (p : Nat) : Tokenized input p (tokens input p).length :=
  tokens_induction (motive := fun p list => Tokenized input p list.length) input
    (fun _ none => tokenized_none none) (fun _ some _ rest => tokenized_step some rest) p

-- scan_balanced: where the closing character of the body stands, if it has one.
def closeAmong (source : Text) (opening closing : Char) : Nat → List Token → Option Nat
  | _,[] => none
  | depth,token :: rest =>
    if text source token = [opening] then closeAmong source opening closing (depth + 1) rest
    else if text source token = [closing] then
      if depth = 1 then some token.begin else closeAmong source opening closing (depth - 1) rest
    else closeAmong source opening closing depth rest

def scanBalanced (source : Text) (bodyStart : Nat) (opening closing : Char) : Option Nat :=
  closeAmong source opening closing 1 (tokens source bodyStart)

theorem scanBalanced_bounds (found : scanBalanced source bodyStart opening closing = some close) :
    bodyStart ≤ close ∧ close < source.length := by
  have bounds := tokens_bounds source bodyStart
  unfold scanBalanced at found
  generalize tokens source bodyStart = list at bounds found
  generalize 1 = depth at found
  induction list generalizing depth with
  | nil => cases found
  | cons token rest ih =>
      have later := fun other member => bounds other (List.mem_cons_of_mem token member)
      rw [closeAmong] at found
      split at found
      · exact ih later _ found
      · split at found
        · split at found
          · cases found
            have here := bounds token List.mem_cons_self
            omega
          · exact ih later _ found
        · exact ih later _ found

end SourceLexer
