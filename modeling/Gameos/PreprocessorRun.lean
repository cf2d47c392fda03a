import Gameos.EnumPrescan

-- Preprocessor::run and the states it goes through.
namespace Preprocessor
open SourceLexer (isSpace substr tokens scanBalanced TokenKind)
open FilesystemPaths (Text join)

inductive State where
  | normal
  | string
  | char
  | lineComment
  | blockComment
deriving DecidableEq, Repr

structure Preprocessor where
  input : Text
  pos : Nat
  lineNo : Nat
  state : State
  output : Text
  hasEmbed : Bool
  enumMap : EnumMap
  constants : Constants
deriving DecidableEq, Repr

-- What a run is given besides its source: the assets directory, and what the
-- shared pool answers for a path and a name (none where the file does not open).
structure Tool where
  assets : Text
  findOrCreate : Text → Text → Option Text

variable (tool : Tool)

def peek (p : Preprocessor) : Char := p.input.getD p.pos '\x00'

def get (p : Preprocessor) : Except Fault (Char × Preprocessor) :=
  match p.input[p.pos]? with
  | none => .error (.outOfRange p.pos)
  | some c => .ok (c,{ p with pos := p.pos + 1,lineNo := if c = '\n' then p.lineNo + 1 else p.lineNo })

def write (text : Text) (p : Preprocessor) : Preprocessor := { p with output := p.output ++ text }

-- output += get()
def copy (p : Preprocessor) : Except Fault (Char × Preprocessor) := do
  let (c,p) ← get p
  return (c,write [c] p)

-- assert(get() == c && message)
def expect (c : Char) (message : String) (p : Preprocessor) : Except Fault Preprocessor := do
  let (read,p) ← get p
  if read = c then return p else .error (.assertion message)

-- while (test(peek())) get(), for a test no '\0' passes: such a loop stays inside.
def getWhile (test : Char → Bool) (p : Preprocessor) : Text × Preprocessor :=
  let taken := (p.input.drop p.pos).takeWhile test
  (taken,{ p with pos := p.pos + taken.length,lineNo := p.lineNo + taken.count '\n' })

def skipSpaces (p : Preprocessor) : Preprocessor := (getWhile isSpace p).2

def getMany : Nat → Preprocessor → Except Fault Preprocessor
  | 0,p => .ok p
  | n + 1,p => do
    let (_,p) ← get p
    getMany n p

def consumeTo (target : Nat) (p : Preprocessor) : Except Fault Preprocessor := getMany (target - p.pos) p

def looksAt (p : Preprocessor) (text : String) : Bool := substr p.input p.pos text.toList.length = text.toList

def advance (n : Nat) (p : Preprocessor) : Preprocessor := { p with pos := p.pos + n }

def embedState (p : Preprocessor) : Except Fault Preprocessor := do
  let p := skipSpaces p
  let p ← expect '"' "@embed expects string" p
  let (path,p) := getWhile (fun c => c ≠ '"' && c ≠ '\x00') p
  let p ← expect '"' "Unterminated @embed" p
  let p := skipSpaces p
  let p ← expect ')' "Expected ')'" p
  match tool.findOrCreate (join tool.assets path) (embedIdentifier path) with
  | none => .error (.assertion "Cannot open file")
  | some name => return write name { p with hasEmbed := true }

def typenameState (p : Preprocessor) : Except Fault Preprocessor := do
  match scanBalanced p.input p.pos '(' ')' with
  | none => .error (.assertion "Unterminated @T")
  | some close =>
    let expr := substr p.input p.pos (close - p.pos)
    let p ← consumeTo (close + 1) p
    return write ("typename ".toList ++ expr) p

-- The name of an enum directive and the enumerators the prescan found for it.
def enumDirective (unterminated notFound : String) (p : Preprocessor) :
    Except Fault ((Text × List Text) × Preprocessor) := do
  let (name,p) := getWhile (fun c => c ≠ ')' && c ≠ '\x00') p
  let p ← expect ')' unterminated p
  match p.enumMap.lookup name with
  | none => .error (.assertion notFound)
  | some values => return ((name,values),p)

def qualified (name value : Text) : Text := name ++ "::".toList ++ value

def enumValues (name : Text) (values : List Text) : Text :=
  "\x7b ".toList ++ ", ".toList.intercalate (values.map (qualified name)) ++ " \x7d".toList

def enumValuesState (p : Preprocessor) : Except Fault Preprocessor := do
  let ((name,values),p) ← enumDirective "Unterminated @enum_values" "enum_values: enum not found" p
  return write (enumValues name values) p

def lineDirective (line : Nat) : Text := "#line ".toList ++ decimal line ++ ['\n']

def enumToString (name : Text) (values : List Text) : Text :=
  "constexpr auto enum_to_string(".toList ++ name ++ " value) -> string \x7b\n".toList ++
    "    switch (value) \x7b\n".toList ++
    values.flatMap (fun value => "    case ".toList ++ qualified name value ++ ": return \"".toList ++
      qualified name value ++ "\";\n".toList) ++
    "    default: return string();\n    \x7d\n\x7d\n".toList

def enumToStringState (p : Preprocessor) : Except Fault Preprocessor := do
  let ((name,values),p) ← enumDirective "Unterminated @enum_to_string" "enum_to_string: enum not found" p
  return write (enumToString name values ++ lineDirective p.lineNo) p

-- replace_for_variable
def replaceFrom (body loopVariable : Text) (value : Int) : Nat → List SourceLexer.Token → Text
  | copied,[] => body.drop copied
  | copied,token :: rest =>
    substr body copied (token.begin - copied) ++
      (if token.kind = .identifier ∧ SourceLexer.text body token = loopVariable then signedDecimal value
        else SourceLexer.text body token) ++
      replaceFrom body loopVariable value token.finish rest

def replaceForVariable (body loopVariable : Text) (value : Int) : Text :=
  replaceFrom body loopVariable value 0 (tokens body 0)

inductive Comparator where
  | atMost
  | atLeast
  | less
  | greater
deriving DecidableEq, Repr

def Comparator.text : Comparator → Text
  | .atMost => "<=".toList
  | .atLeast => ">=".toList
  | .less => "<".toList
  | .greater => ">".toList

def Comparator.holds (limit value : Int) : Comparator → Bool
  | .atMost => value ≤ limit
  | .atLeast => limit ≤ value
  | .less => value < limit
  | .greater => limit < value

structure ForHeader where
  loopVariable : Text
  comparator : Comparator
  start : Int
  limit : Int
  step : Int
deriving DecidableEq, Repr

def forComparator (condition : Text) : Option (Comparator × Text) :=
  [Comparator.atMost,.atLeast,.less,.greater].findSome? fun candidate =>
    (findText candidate.text condition).map fun p => (candidate,trim (condition.drop (p + candidate.text.length)))

def forStep (increment : Text) : Int :=
  if (findText "++".toList increment).isSome then 1
  else if (findText "--".toList increment).isSome then -1
  else 0

def forHeader (constants : Constants) (header : Text) : Except Fault ForHeader := do
  match (tokens header 0).filter fun token => SourceLexer.text header token = [';'] with
  | first :: second :: _ =>
    let init := trim (header.take first.begin)
    let condition := trim (substr header (first.begin + 1) (second.begin - first.begin - 1))
    let increment := trim (header.drop (second.begin + 1))
    if '=' ∈ init then
      let loopVariable := lastWord (trim (init.takeWhile (· ≠ '=')))
      match forComparator condition with
      | none => .error (.assertion "@for condition expects <, <=, >, or >=")
      | some (comparator,condition) =>
        let start ← constantValue constants ((init.dropWhile (· ≠ '=')).drop 1)
        let limit ← constantValue constants condition
        let step := forStep increment
        if step = 0 then .error (.assertion "@for increment expects ++variable or --variable")
        else return ⟨loopVariable,comparator,start,limit,step⟩
    else .error (.assertion "@for init expects variable = value")
  | _ => .error (.assertion "@for expects init; condition; increment")

-- value += step, on 64 bits
def nextValue (value step : Int) : Int := (value + step).bmod 18446744073709551616

-- for (s64 value = start; condition_holds(value); value += step), with its turns.
def expandFor (header : ForHeader) (expansion : Int → Text) : Nat → Int → Except Fault Text
  | turns,value =>
    if header.comparator.holds header.limit value then
      match turns with
      | 0 => .error .unfinished
      | turns + 1 => do
        let rest ← expandFor header expansion turns (nextValue value header.step)
        return expansion value ++ rest
    else .ok []

def forDirection (header : ForHeader) : Bool :=
  (0 < header.step && (header.comparator = .less || header.comparator = .atMost)) ||
    (header.step < 0 && (header.comparator = .greater || header.comparator = .atLeast))

-- The blanks the directive's line begins with.
def indentation (input : Text) (directivePos : Nat) : Text :=
  ((input.take directivePos).rtakeWhile (· ≠ '\n')).takeWhile isBlank

def forExpansion (bodyLine : Nat) (indent body loopVariable : Text) (value : Int) : Text :=
  let expandedBody := replaceForVariable body loopVariable value
  lineDirective bodyLine ++ indent ++ ['{'] ++ expandedBody ++
    (if expandedBody.getLast? = some '\n' then indent else []) ++ "\x7d\n".toList

def forState (turns directivePos : Nat) (p : Preprocessor) : Except Fault Preprocessor := do
  match scanBalanced p.input p.pos '(' ')' with
  | none => .error (.assertion "Unterminated @for header")
  | some headerClose =>
    let header := substr p.input p.pos (headerClose - p.pos)
    let p ← consumeTo (headerClose + 1) p
    let header ← forHeader p.constants header
    let p := skipSpaces p
    let p ← expect '{' "@for expects a braced body" p
    let bodyLine := p.lineNo
    match scanBalanced p.input p.pos '{' '}' with
    | none => .error (.assertion "Unterminated @for body")
    | some bodyClose =>
      let body := substr p.input p.pos (bodyClose - p.pos)
      let p ← consumeTo (bodyClose + 1) p
      let indent := indentation p.input directivePos
      if forDirection header then
        let expanded ← expandFor header (forExpansion bodyLine indent body header.loopVariable) turns header.start
        return write (expanded ++ lineDirective p.lineNo) p
      else .error (.assertion "@for increment moves away from loop condition")

-- @for, spaces, and a parenthesis.
def atFor (p : Preprocessor) : Bool := looksAt p "@for" && peek (skipSpaces (advance 4 p)) == '('

def copyChar (p : Preprocessor) : Except Fault Preprocessor := do
  let (_,p) ← copy p
  return p

def normalState (turns : Nat) (p : Preprocessor) : Except Fault Preprocessor :=
  if looksAt p "@embed(" then embedState tool (advance 7 p)
  else if looksAt p "@enum_values(" then enumValuesState (advance 13 p)
  else if looksAt p "@enum_to_string(" then enumToStringState (advance 16 p)
  else if looksAt p "@T(" then typenameState (advance 3 p)
  else if atFor p then forState turns p.pos (advance 1 (skipSpaces (advance 4 p)))
  else if looksAt p "@for" then
    -- pos goes back to the directive, line_no keeps what the spaces added
    copyChar { p with lineNo := (skipSpaces (advance 4 p)).lineNo }
  else if peek p = '"' then do
    let p ← copyChar p
    return { p with state := .string }
  else if peek p = '\'' then do
    let p ← copyChar p
    return { p with state := .char }
  else if looksAt p "//" then .ok { write "//".toList (advance 2 p) with state := .lineComment }
  else if looksAt p "/*" then .ok { write "/*".toList (advance 2 p) with state := .blockComment }
  else copyChar p

-- string_state and char_state, which differ in the quote that ends them.
def quotedState (quote : Char) (p : Preprocessor) : Except Fault Preprocessor := do
  let (c,p) ← copy p
  if c = '\\' then copyChar p
  else if c = quote then return { p with state := .normal }
  else return p

def stringState (p : Preprocessor) : Except Fault Preprocessor := quotedState '"' p

def charState (p : Preprocessor) : Except Fault Preprocessor := quotedState '\'' p

def lineCommentState (p : Preprocessor) : Except Fault Preprocessor := do
  let (c,p) ← copy p
  if c = '\n' then return { p with state := .normal } else return p

def blockCommentState (p : Preprocessor) : Except Fault Preprocessor := do
  let (c,p) ← copy p
  if c = '*' ∧ peek p = '/' then do
    let p ← copyChar p
    return { p with state := .normal }
  else return p

def step (turns : Nat) (p : Preprocessor) : Except Fault Preprocessor :=
  match p.state with
  | .normal => normalState tool turns p
  | .string => stringState p
  | .char => charState p
  | .lineComment => lineCommentState p
  | .blockComment => blockCommentState p

-- The turns bound the loop of run and, in it, the loop of each @for.
def loop (turns : Nat) : Nat → Preprocessor → Except Fault Preprocessor
  | left,p =>
    if p.pos < p.input.length then
      match left with
      | 0 => .error .unfinished
      | left + 1 => do
        let p ← step tool turns p
        loop turns left p
    else .ok p

-- clear_state and the prescans
def clearState (source : Text) : Except Fault Preprocessor := do
  let enumMap ← prescanEnums source
  return ⟨source,0,1,.normal,[],false,enumMap,prescanConstants source⟩

def run (turns : Nat) (source : Text) : Except Fault (Bool × Text) := do
  let p ← clearState source
  let p ← loop tool turns turns p
  return (p.hasEmbed,p.output)

end Preprocessor
