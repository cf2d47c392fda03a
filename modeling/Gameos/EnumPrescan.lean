import Gameos.PreprocessorConstants

-- prescan_enums: the scoped enums a source defines, found token by token.
namespace Preprocessor
open SourceLexer (TokenKind tokens)
open FilesystemPaths (Text)

structure Lexeme where
  kind : TokenKind
  text : Text
deriving DecidableEq, Repr

def lexemes (input : Text) : List Lexeme :=
  (tokens input 0).map fun token => ⟨token.kind,SourceLexer.text input token⟩

def Lexeme.isWord (lexeme : Lexeme) (word : String) : Bool := lexeme.kind = .identifier ∧ lexeme.text = word.toList

structure Nesting where
  parentheses : Nat
  brackets : Nat
  braces : Nat
  angles : Nat
deriving DecidableEq

def Nesting.none : Nesting := ⟨0,0,0,0⟩

def Nesting.read (nesting : Nesting) (text : Text) : Nesting :=
  if text = ['('] then { nesting with parentheses := nesting.parentheses + 1 }
  else if text = [')'] then { nesting with parentheses := nesting.parentheses - 1 }
  else if text = ['['] then { nesting with brackets := nesting.brackets + 1 }
  else if text = [']'] then { nesting with brackets := nesting.brackets - 1 }
  else if text = ['{'] then { nesting with braces := nesting.braces + 1 }
  else if text = ['}'] then { nesting with braces := nesting.braces - 1 }
  else if text = ['<'] then { nesting with angles := nesting.angles + 1 }
  else if text = ['>'] then { nesting with angles := nesting.angles - 1 }
  else if text = ['>','>'] then { nesting with angles := nesting.angles - 2 }
  else nesting

-- The tokens from the one on that ends an initializer.
def skipInitializer : Nesting → List Lexeme → List Lexeme
  | _,[] => []
  | nesting,token :: rest =>
    if (token.text = [','] ∨ token.text = ['}']) ∧ nesting = .none then token :: rest
    else skipInitializer (nesting.read token.text) rest

-- Enumerators up to the closing brace, and the tokens after it. The turns are
-- bounded by the number of tokens.
def readEnumerators : Nat → List Lexeme → List Text × List Lexeme
  | 0,list => ([],list)
  | _ + 1,[] => ([],[])
  | turns + 1,token :: rest =>
    if token.text = ['}'] then ([],rest)
    else if token.text = [','] ∨ token.kind ≠ .identifier then readEnumerators turns rest
    else
      let after := match rest with
        | equals :: initializer => if equals.text = ['='] then skipInitializer .none initializer else rest
        | [] => []
      let (values,left) := readEnumerators turns after
      (token.text :: values,left)

-- What follows the word enum: the name if a list of enumerators comes next, and
-- the tokens left.
def enumHead : List Lexeme → Option Text × List Lexeme
  | [] => (none,[])
  | kind :: rest =>
    if !(kind.isWord "struct" || kind.isWord "class") then (none,rest)
    else
      match rest with
      | [] => (none,[])
      | nameToken :: rest =>
        if nameToken.kind ≠ .identifier then (none,rest)
        else
          match rest with
          | [] => (none,[])
          | token :: rest =>
            match if token.text = [':'] then rest.dropWhile (·.text ≠ ['{']) else token :: rest with
            | [] => (none,[])
            | brace :: rest => if brace.text = ['{'] then (some nameToken.text,rest) else (none,rest)

abbrev EnumMap := List (Text × List Text)

def prescan : Nat → List Lexeme → EnumMap → Except Fault EnumMap
  | 0,_,enumMap => .ok enumMap
  | _ + 1,[],enumMap => .ok enumMap
  | turns + 1,enumToken :: rest,enumMap =>
    if enumToken.isWord "enum" then
      match enumHead rest with
      | (none,rest) => prescan turns rest enumMap
      | (some name,rest) =>
        let (values,rest) := readEnumerators rest.length rest
        if values = [] then prescan turns rest enumMap
        else if (enumMap.lookup name).isSome then .error (.assertion "Duplicate enum name")
        else prescan turns rest ((name,values) :: enumMap)
    else prescan turns rest enumMap

def prescanEnums (input : Text) : Except Fault EnumMap := prescan (lexemes input).length (lexemes input) []

theorem skipInitializer_fewer (nesting : Nesting) (list : List Lexeme) : (skipInitializer nesting list).length ≤ list.length := by
  induction list generalizing nesting with
  | nil => exact Nat.le_refl 0
  | cons token rest ih =>
      rw [skipInitializer]
      split
      · exact Nat.le_refl _
      · exact Nat.le_succ_of_le (ih _)

theorem initializer_fewer (rest : List Lexeme) : (match rest with
    | equals :: initializer => if equals.text = ['='] then skipInitializer .none initializer else rest
    | [] => []).length ≤ rest.length := by
  cases rest with
  | nil => exact Nat.le_refl 0
  | cons equals initializer =>
      dsimp only
      split
      · exact Nat.le_succ_of_le (skipInitializer_fewer _ _)
      · exact Nat.le_refl _

theorem readEnumerators_fewer (turns : Nat) (list : List Lexeme) : (readEnumerators turns list).2.length ≤ list.length := by
  induction turns generalizing list with
  | zero => exact Nat.le_refl _
  | succ turns ih =>
      cases list with
      | nil => exact Nat.le_refl 0
      | cons token rest =>
          unfold readEnumerators
          split
          · exact Nat.le_succ _
          · split
            · exact Nat.le_succ_of_le (ih rest)
            · exact Nat.le_succ_of_le (Nat.le_trans (ih _) (initializer_fewer rest))

-- As many turns as there are tokens read a whole list.
theorem readEnumerators_enough {list : List Lexeme} (enough : list.length ≤ turns) (more : turns ≤ turns') :
    readEnumerators turns list = readEnumerators turns' list := by
  induction turns generalizing list turns' with
  | zero =>
      cases List.length_eq_zero_iff.mp (Nat.le_zero.mp enough)
      cases turns' <;> rfl
  | succ turns ih =>
      obtain ⟨turns',rfl⟩ : ∃ n, turns' = n + 1 := ⟨turns' - 1,by omega⟩
      cases list with
      | nil => rfl
      | cons token rest =>
          rw [List.length_cons] at enough
          unfold readEnumerators
          split
          · rfl
          · split
            · exact ih (by omega) (by omega)
            · have short := Nat.le_trans (initializer_fewer rest) (Nat.le_of_succ_le_succ enough)
              exact congrArg (fun read => (token.text :: read.1,read.2)) (ih short (Nat.le_of_succ_le_succ more))

theorem enumHead_fewer (list : List Lexeme) : (enumHead list).2.length ≤ list.length := by
  rcases list with _ | ⟨kind,rest⟩
  · exact Nat.le_refl 0
  unfold enumHead
  dsimp only
  split
  · exact Nat.le_succ _
  rcases rest with _ | ⟨nameToken,rest⟩
  · exact Nat.zero_le _
  dsimp only
  split
  · exact Nat.le_add_right _ 2
  rcases rest with _ | ⟨token,rest⟩
  · exact Nat.zero_le _
  dsimp only
  have dropped : (rest.dropWhile (·.text ≠ ['{'])).length ≤ rest.length := (List.dropWhile_suffix _).length_le
  have body : (if token.text = [':'] then rest.dropWhile (·.text ≠ ['{']) else token :: rest).length ≤ rest.length + 1 := by
    split
    · exact Nat.le_succ_of_le dropped
    · exact Nat.le_refl _
  generalize (if token.text = [':'] then rest.dropWhile (·.text ≠ ['{']) else token :: rest) = after at body
  rcases after with _ | ⟨brace,after⟩
  · exact Nat.zero_le _
  rw [List.length_cons] at body
  dsimp only
  rw [List.length_cons,List.length_cons,List.length_cons]
  split
  · dsimp only
    omega
  · dsimp only
    omega

theorem prescan_enough {list : List Lexeme} (enough : list.length ≤ turns) (more : turns ≤ turns') (enumMap : EnumMap) :
    prescan turns list enumMap = prescan turns' list enumMap := by
  induction turns generalizing list turns' enumMap with
  | zero =>
      cases List.length_eq_zero_iff.mp (Nat.le_zero.mp enough)
      cases turns' <;> rfl
  | succ turns ih =>
      obtain ⟨turns',rfl⟩ : ∃ n, turns' = n + 1 := ⟨turns' - 1,by omega⟩
      cases list with
      | nil => rfl
      | cons enumToken rest =>
          rw [List.length_cons] at enough
          have fewer := enumHead_fewer rest
          rw [prescan,prescan]
          split
          · cases head : enumHead rest with
            | mk name after =>
                rw [head] at fewer
                dsimp only at fewer
                cases name with
                | none => exact ih (by omega) (by omega) enumMap
                | some name =>
                    have left := readEnumerators_fewer after.length after
                    dsimp only
                    split
                    · exact ih (by omega) (by omega) enumMap
                    · split
                      · rfl
                      · exact ih (by omega) (by omega) _
          · exact ih (by omega) (by omega) enumMap

theorem prescan_fault (failed : prescan turns list enumMap = .error fault) : ∃ message, fault = .assertion message := by
  induction turns generalizing list enumMap with
  | zero => cases failed
  | succ turns ih =>
      cases list with
      | nil => cases failed
      | cons enumToken rest =>
          rw [prescan] at failed
          split at failed
          · split at failed
            · exact ih failed
            · dsimp only at failed
              split at failed
              · exact ih failed
              · split at failed
                · cases failed
                  exact ⟨_,rfl⟩
                · exact ih failed
          · exact ih failed

end Preprocessor
