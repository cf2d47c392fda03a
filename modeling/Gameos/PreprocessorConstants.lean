import Gameos.SourceLexer
import Mathlib.Data.List.DropRight

-- The texts and the integer constants run reads before it starts.
namespace Preprocessor
open SourceLexer (isSpace isDigit substr)
open FilesystemPaths (Text)

-- What ends a run other than its output.
inductive Fault where
  | assertion (message : String)
  -- a character was read past the end of the input
  | outOfRange (position : Nat)
  -- the turns given to the loops did not suffice
  | unfinished
deriving DecidableEq, Repr

-- std::string::find of a text
def findText (sought : Text) : Text → Option Nat
  | [] => if sought = [] then some 0 else none
  | c :: rest => if sought.isPrefixOf (c :: rest) then some 0 else (findText sought rest).map (· + 1)

def isTrimmed (c : Char) : Bool := c == ' ' || c == '\t' || c == '\r' || c == '\n'

def trim (value : Text) : Text := (value.dropWhile isTrimmed).rdropWhile isTrimmed

def isBlank (c : Char) : Bool := c == ' ' || c == '\t'

-- The part after the last blank, the whole text if there is none.
def lastWord (value : Text) : Text := value.rtakeWhile fun c => !isBlank c

def digitValue (c : Char) : Nat :=
  if isDigit c then c.toNat - '0'.toNat
  else if 'a' ≤ c ∧ c ≤ 'f' then c.toNat - 'a'.toNat + 10
  else if 'A' ≤ c ∧ c ≤ 'F' then c.toNat - 'A'.toNat + 10
  else 16

def S64_MIN : Int := -9223372036854775808
def S64_MAX : Int := 9223372036854775807

-- The base of a literal and the length of its prefix, as strtoll with base 0 has them.
def literalBase : Text → Nat × Nat
  | '0' :: x :: d :: _ => if (x = 'x' ∨ x = 'X') ∧ digitValue d < 16 then (16,2) else (8,0)
  | '0' :: _ => (8,0)
  | _ => (10,0)

-- std::stoll(text, &end, 0); none where it throws.
def stoll (value : Text) : Option (Int × Nat) :=
  let spaces := (value.takeWhile isSpace).length
  let signed := value.drop spaces
  let sign := match signed with
    | '-' :: _ | '+' :: _ => 1
    | _ => 0
  let unsigned := signed.drop sign
  let (base,skipped) := literalBase unsigned
  let digits := (unsigned.drop skipped).takeWhile fun c => digitValue c < base
  let magnitude : Int := digits.foldl (fun n c => n * base + digitValue c) 0
  let number := if signed.head? = some '-' then -magnitude else magnitude
  if digits = [] then none
  else if S64_MIN ≤ number ∧ number ≤ S64_MAX then some (number,spaces + sign + skipped + digits.length)
  else none

-- The number a whole text stands for.
def wholeNumber (value : Text) : Option Int :=
  match stoll value with
  | some (number,finish) => if finish = value.length then some number else none
  | none => none

abbrev Constants := List (Text × Int)

-- #define NAME VALUE
def defineLine (line : Text) : Option (Text × Int) :=
  if "#define ".toList.isPrefixOf line then
    let definition := trim (line.drop 8)
    let name := definition.takeWhile fun c => !isBlank c
    let value := trim (definition.drop (name.length + 1))
    if name.length < definition.length ∧ name ≠ [] ∧ value ≠ [] then (wholeNumber value).map fun n => (name,n)
    else none
  else none

-- constexpr ... NAME = VALUE;
def constexprLine (line : Text) : Option (Text × Int) :=
  match findText "constexpr ".toList line with
  | none => none
  | some position =>
    let declared := line.drop (position + 10)
    if '=' ∈ declared then
      let name := lastWord (trim (declared.takeWhile (· ≠ '=')))
      let value := trim ((declared.dropWhile (· ≠ '=')).drop 1)
      let value := if value.getLast? = some ';' then value.dropLast else value
      if name = [] then none else (wholeNumber (trim value)).map fun n => (name,n)
    else none

-- prescan_constants; the latest entry of a name is the first one found.
def prescanConstants (input : Text) : Constants :=
  (input.splitOn '\n').foldl (fun constants line =>
    let line := trim line
    (constexprLine line).toList ++ ((defineLine line).toList ++ constants)) []

def constantValue (constants : Constants) (expr : Text) : Except Fault Int :=
  let expr := trim expr
  match constants.lookup expr with
  | some number => .ok number
  | none =>
    match wholeNumber expr with
    | some number => .ok number
    | none => .error (.assertion "@for expects an integer expression")

-- std::to_string
def decimal (n : Nat) : Text := Nat.toDigits 10 n

def signedDecimal (n : Int) : Text := if n < 0 then '-' :: decimal n.natAbs else decimal n.natAbs

-- A literal stands for its number in each of the bases, and for no other text.
example : (["42","-0x1F","017","0x","9223372036854775808"].map fun s => wholeNumber s.toList) =
    [some 42,some (-31),some 15,none,none] := by decide

end Preprocessor
