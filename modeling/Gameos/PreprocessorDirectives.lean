import Gameos.PreprocessorRun

-- How a directive ends: with its text, with an assertion, past the end of the input, or
-- not at all.
namespace Preprocessor
open SourceLexer (isSpace substr tokens scanBalanced scanBalanced_bounds Tokenized tokenized)
open FilesystemPaths (Text join)

-- The source still to be read.
def ahead (p : Preprocessor) : Text := p.input.drop p.pos

-- The later state reads the same source, further on.
structure Onward (p q : Preprocessor) : Prop where
  input : q.input = p.input
  enumMap : q.enumMap = p.enumMap
  constants : q.constants = p.constants
  pos : p.pos ≤ q.pos
  inside : p.pos ≤ p.input.length → q.pos ≤ p.input.length

-- Enough turns for a loop over all 64-bit values.
def plenty : Nat := 18446744073709551616

-- What an operation leaves where it neither reads past the end nor runs on for ever.
def Settles (turns : Nat) (p : Preprocessor) : Except Fault Preprocessor → Prop
  | .ok q => Onward p q
  | .error (.assertion _) => True
  | .error (.outOfRange _) => False
  | .error .unfinished => turns < plenty

def Fails : Except Fault Preprocessor → Prop
  | .error (.outOfRange _) => True
  | .error .unfinished => True
  | _ => False

section Reading
variable {p q r : Preprocessor} {tool : Tool} {turns : Nat}

theorem Onward.refl (p : Preprocessor) : Onward p p := ⟨rfl,rfl,rfl,Nat.le_refl _,id⟩

theorem Onward.trans (first : Onward p q) (second : Onward q r) : Onward p r := by
  refine ⟨second.input.trans first.input,second.enumMap.trans first.enumMap,second.constants.trans first.constants,
    Nat.le_trans first.pos second.pos,fun inside => ?_⟩
  have later := second.inside
  rw [first.input] at later
  exact later (first.inside inside)

theorem write_onward (text : Text) (p : Preprocessor) : Onward p (write text p) := ⟨rfl,rfl,rfl,Nat.le_refl _,id⟩

theorem advance_onward (fits : n ≤ (ahead p).length) : Onward p (advance n p) := by
  refine ⟨rfl,rfl,rfl,Nat.le_add_right _ _,fun inside => ?_⟩
  rw [ahead,List.length_drop] at fits
  show p.pos + n ≤ p.input.length
  omega

theorem ahead_advance (n : Nat) (p : Preprocessor) : ahead (advance n p) = (ahead p).drop n := by
  simp only [ahead,advance,List.drop_drop]

theorem ahead_some (inside : p.pos < p.input.length) : ∃ c rest, ahead p = c :: rest := by
  cases here : ahead p with
  | nil =>
      have past := List.drop_eq_nil_iff.mp here
      omega
  | cons c rest => exact ⟨c,rest,rfl⟩

theorem ahead_head (p : Preprocessor) : p.input[p.pos]? = (ahead p).head? := by
  rw [ahead,List.head?_drop]

theorem peek_eq (p : Preprocessor) : peek p = (ahead p).headD '\x00' := by
  rw [peek,List.getD_eq_getElem?_getD,ahead_head]
  cases ahead p <;> rfl

theorem get_nil (none : ahead p = []) : get p = .error (.outOfRange p.pos) := by
  rw [get,ahead_head,none]
  rfl

theorem get_cons (here : ahead p = c :: rest) :
    ∃ q, get p = .ok (c,q) ∧ ahead q = rest ∧ Onward p q ∧ q.pos = p.pos + 1 ∧ q.state = p.state := by
  refine ⟨{ p with pos := p.pos + 1,lineNo := if c = '\n' then p.lineNo + 1 else p.lineNo },?_,?_,?_,rfl,rfl⟩
  · rw [get,ahead_head,here]
    rfl
  · have next := congrArg (List.drop 1) here
    rw [ahead,List.drop_drop] at next
    exact next
  · have length := congrArg List.length here
    rw [ahead,List.length_drop,List.length_cons] at length
    refine ⟨rfl,rfl,rfl,Nat.le_succ _,fun _ => ?_⟩
    dsimp only
    omega

theorem copy_nil (none : ahead p = []) : copy p = .error (.outOfRange p.pos) := by
  rw [copy,get_nil none]
  rfl

theorem copy_cons (here : ahead p = c :: rest) :
    ∃ q, copy p = .ok (c,q) ∧ ahead q = rest ∧ Onward p q ∧ q.pos = p.pos + 1 ∧ q.state = p.state := by
  obtain ⟨q,got,next,onward,pos,state⟩ := get_cons here
  refine ⟨write [c] q,by rw [copy,got]; rfl,next,onward.trans (write_onward _ _),pos,state⟩

theorem expect_nil (none : ahead p = []) (c : Char) (message : String) : expect c message p = .error (.outOfRange p.pos) := by
  rw [expect,get_nil none]
  rfl

theorem expect_other (here : ahead p = d :: rest) (other : d ≠ c) (message : String) :
    expect c message p = .error (.assertion message) := by
  obtain ⟨q,got,_⟩ := get_cons here
  rw [expect,got]
  exact if_neg other

theorem expect_cons (here : ahead p = c :: rest) (message : String) :
    ∃ q, expect c message p = .ok q ∧ ahead q = rest ∧ Onward p q ∧ q.pos = p.pos + 1 := by
  obtain ⟨q,got,next,onward,pos,_⟩ := get_cons here
  refine ⟨q,?_,next,onward,pos⟩
  rw [expect,got]
  exact if_pos rfl

theorem getWhile_ahead (test : Char → Bool) (p : Preprocessor) :
    ahead (getWhile test p).2 = (ahead p).dropWhile test ∧ Onward p (getWhile test p).2 := by
  have split := List.takeWhile_append_dropWhile (p:=test) (l:=ahead p)
  constructor
  · show p.input.drop (p.pos + ((ahead p).takeWhile test).length) = _
    rw [← List.drop_drop]
    exact (congrArg (List.drop ((ahead p).takeWhile test).length) split.symm).trans List.drop_left
  · have length := congrArg List.length split
    rw [List.length_append,ahead,List.length_drop] at length
    refine ⟨rfl,rfl,rfl,Nat.le_add_right _ _,fun inside => ?_⟩
    show p.pos + ((p.input.drop p.pos).takeWhile test).length ≤ p.input.length
    omega

theorem getMany_fits (n : Nat) (p : Preprocessor) (fits : n ≤ (ahead p).length) :
    ∃ q, getMany n p = .ok q ∧ ahead q = (ahead p).drop n ∧ Onward p q ∧ q.pos = p.pos + n := by
  induction n generalizing p with
  | zero => exact ⟨p,rfl,rfl,.refl p,rfl⟩
  | succ n ih =>
      cases here : ahead p with
      | nil =>
          rw [here] at fits
          cases fits
      | cons c rest =>
          obtain ⟨q,got,next,onward,pos,_⟩ := get_cons here
          rw [here] at fits
          obtain ⟨r,many,last,further,pos'⟩ := ih q (by rw [next]; exact Nat.le_of_succ_le_succ fits)
          refine ⟨r,?_,?_,onward.trans further,by omega⟩
          · rw [getMany,got]
            exact many
          · rw [last,next]
            rfl

end Reading

section Directives
variable {tool : Tool} {turns : Nat}

-- @embed( whose string or parenthesis does not come before the end.
def cutEmbed (text : Text) : Bool :=
  match text.dropWhile isSpace with
  | [] => true
  | quote :: rest =>
    if quote ≠ '"' then false
    else
      match rest.dropWhile (fun c => c ≠ '"' && c ≠ '\x00') with
      | [] => true
      | ending :: rest => if ending ≠ '"' then false else (rest.dropWhile isSpace).isEmpty

-- A name that no parenthesis and no '\0' ends.
def cutName (text : Text) : Bool := (text.dropWhile fun c => c ≠ ')' && c ≠ '\x00').isEmpty

theorem skipSpaces_ahead (p : Preprocessor) :
    ahead (skipSpaces p) = (ahead p).dropWhile isSpace ∧ Onward p (skipSpaces p) := getWhile_ahead isSpace p

theorem error_bind (fault : Fault) (next : α → Except Fault β) : (Except.error fault >>= next) = .error fault := rfl

theorem ok_bind (value : α) (next : α → Except Fault β) : (Except.ok value >>= next) = next value := rfl

-- A result that fails where the input is cut short, and only there.
def Ends (cut : Bool) (turns : Nat) (p : Preprocessor) (r : Except Fault Preprocessor) : Prop :=
  if cut then Fails r else Settles turns p r

-- A character that has to come next: at the end of the input it is read past it.
theorem ends_expect {cut : Bool} {next : Preprocessor → Except Fault Preprocessor} (message : String)
    (none : ahead q = [] → cut = true) (other : ∀ d rest, ahead q = d :: rest → d ≠ c → cut = false)
    (rest : ∀ rest r, ahead q = c :: rest → ahead r = rest → Onward q r → r.pos = q.pos + 1 → Ends cut turns p (next r)) :
    Ends cut turns p (expect c message q >>= next) := by
  cases here : ahead q with
  | nil =>
      rw [expect_nil here,error_bind,none here]
      trivial
  | cons d later =>
      by_cases same : d = c
      · subst same
        obtain ⟨r,read,left,onward,pos⟩ := expect_cons here message
        rw [read,ok_bind]
        exact rest later r here left onward pos
      · rw [expect_other here same,error_bind,other d later here same]
        trivial

theorem embedState_eq (p : Preprocessor) : embedState tool p =
    expect '"' "@embed expects string" (skipSpaces p) >>= fun p =>
      expect '"' "Unterminated @embed" (getWhile (fun c => c ≠ '"' && c ≠ '\x00') p).2 >>= fun q =>
        expect ')' "Expected ')'" (skipSpaces q) >>= fun r =>
          match tool.findOrCreate (join tool.assets (getWhile (fun c => c ≠ '"' && c ≠ '\x00') p).1)
            (embedIdentifier (getWhile (fun c => c ≠ '"' && c ≠ '\x00') p).1) with
          | none => .error (.assertion "Cannot open file")
          | some name => .ok (write name { r with hasEmbed := true }) := rfl

theorem embedState_ends (p : Preprocessor) : Ends (cutEmbed (ahead p)) turns p (embedState tool p) := by
  obtain ⟨spaces,onward⟩ := skipSpaces_ahead p
  rw [embedState_eq]
  refine ends_expect _ (fun none => ?_) (fun d rest here other => ?_) fun rest q here left further _ => ?_
  · rw [cutEmbed,← spaces,none]
  · rw [cutEmbed,← spaces,here]
    exact if_pos other
  obtain ⟨path,onward'⟩ := getWhile_ahead (fun c => c ≠ '"' && c ≠ '\x00') q
  rw [left] at path
  have cut (text : Text) (rest' : rest.dropWhile (fun c => c ≠ '"' && c ≠ '\x00') = text) : cutEmbed (ahead p) =
      (text.isEmpty || text.head? = some '"' && (text.tail.dropWhile isSpace).isEmpty) := by
    rw [cutEmbed,← spaces,here]
    show ite _ _ _ = _
    rw [if_neg (by decide),rest']
    cases text with
    | nil => rfl
    | cons ending text =>
        by_cases same : ending = '"'
        · subst same
          rfl
        · show (if ending ≠ '"' then false else _) = (decide (some ending = some '"') && _)
          rw [if_pos same,decide_eq_false fun equal => same (Option.some.inj equal),Bool.false_and]
  rw [← path] at cut
  refine ends_expect _ (fun none => ?_) (fun d rest here other => ?_) fun rest r here left further' _ => ?_
  · exact cut [] none
  · rw [cut _ here]
    show (decide (some d = some '"') && _) = false
    rw [decide_eq_false fun equal => other (Option.some.inj equal),Bool.false_and]
  obtain ⟨blanks,onward''⟩ := skipSpaces_ahead r
  rw [left] at blanks
  have cut' : cutEmbed (ahead p) = (ahead (skipSpaces r)).isEmpty := by
    rw [cut _ here,blanks]
    rfl
  refine ends_expect _ (fun none => by rw [cut',none]; rfl) (fun d rest here _ => by rw [cut',here]; rfl) fun rest last here _ close _ => ?_
  have fine : cutEmbed (ahead p) = false := by
    rw [cut',here]
    rfl
  rw [fine]
  show Settles _ _ _
  split
  · trivial
  · have all := ((((onward.trans further).trans onward').trans further').trans onward'').trans close
    exact ⟨all.input,all.enumMap,all.constants,all.pos,all.inside⟩

-- Both enum directives: a name, a parenthesis, and the text for what the prescan found.
theorem enumDirective_ends (unterminated notFound : String) (text : Text × List Text → Preprocessor → Text) (p : Preprocessor) :
    Ends (cutName (ahead p)) turns p
      (enumDirective unterminated notFound p >>= fun found => .ok (write (text found.1 found.2) found.2)) := by
  obtain ⟨name,onward⟩ := getWhile_ahead (fun c => c ≠ ')' && c ≠ '\x00') p
  have split : (enumDirective unterminated notFound p >>= fun found => .ok (write (text found.1 found.2) found.2)) =
      expect ')' unterminated (getWhile (fun c => c ≠ ')' && c ≠ '\x00') p).2 >>= fun q =>
        (q.enumMap.lookup ((p.input.drop p.pos).takeWhile fun c => c ≠ ')' && c ≠ '\x00')).elim
          (.error (.assertion notFound))
          fun values => .ok (write (text ((p.input.drop p.pos).takeWhile (fun c => c ≠ ')' && c ≠ '\x00'),values) q) q) := by
    show ((expect ')' unterminated (getWhile (fun c => c ≠ ')' && c ≠ '\x00') p).2 >>= _) >>= _) = _
    cases expect ')' unterminated (getWhile (fun c => c ≠ ')' && c ≠ '\x00') p).2 with
    | error => rfl
    | ok q =>
        rw [ok_bind,ok_bind]
        generalize q.enumMap.lookup _ = found
        cases found <;> rfl
  rw [split]
  have cut : cutName (ahead p) = (ahead (getWhile (fun c => c ≠ ')' && c ≠ '\x00') p).2).isEmpty := by
    rw [cutName,name]
  refine ends_expect _ (fun none => by rw [cut,none]; rfl) (fun d rest here _ => by rw [cut,here]; rfl)
    fun rest q here _ further _ => ?_
  have fine : cutName (ahead p) = false := by
    rw [cut,here]
    rfl
  rw [fine]
  show Settles _ _ _
  generalize q.enumMap.lookup _ = found
  cases found with
  | none => trivial
  | some values => exact (onward.trans further).trans (write_onward _ _)

theorem enumValuesState_ends (p : Preprocessor) : Ends (cutName (ahead p)) turns p (enumValuesState p) :=
  enumDirective_ends _ _ (fun found _ => enumValues found.1 found.2) p

theorem enumToStringState_ends (p : Preprocessor) : Ends (cutName (ahead p)) turns p (enumToStringState p) :=
  enumDirective_ends _ _ (fun found q => enumToString found.1 found.2 ++ lineDirective q.lineNo) p

-- consume_to a place within the input.
theorem consumeTo_fits (target : Nat) (p : Preprocessor) (low : p.pos ≤ target) (high : target ≤ p.input.length) :
    ∃ q, consumeTo target p = .ok q ∧ q.pos = target ∧ Onward p q := by
  have length : target - p.pos ≤ (ahead p).length := by
    rw [ahead,List.length_drop]
    omega
  obtain ⟨q,many,_,onward,pos⟩ := getMany_fits _ p length
  exact ⟨q,many,by omega,onward⟩

theorem typenameState_settles (p : Preprocessor) : Settles turns p (typenameState p) := by
  unfold typenameState
  cases found : scanBalanced p.input p.pos '(' ')' with
  | none => trivial
  | some close =>
      obtain ⟨low,high⟩ := scanBalanced_bounds found
      obtain ⟨q,consumed,_,onward⟩ := consumeTo_fits (close + 1) p (by omega) (by omega)
      dsimp only
      rw [consumed,ok_bind]
      exact onward.trans (write_onward _ _)

end Directives

end Preprocessor
