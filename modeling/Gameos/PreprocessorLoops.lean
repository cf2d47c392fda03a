import Gameos.PreprocessorDirectives

-- The numbers of a @for and how far its loop runs.
namespace Preprocessor
open SourceLexer (isSpace substr skipWhile scanBalanced scanBalanced_bounds tokens)
open FilesystemPaths (Text)

section Numbers

def InRange (n : Int) : Prop := S64_MIN ≤ n ∧ n ≤ S64_MAX

def Bounded (constants : Constants) : Prop := ∀ entry ∈ constants, InRange entry.2

theorem stoll_range (read : stoll value = some (n,finish)) : InRange n := by
  unfold stoll at read
  extract_lets spaces signed sign unsigned at read
  obtain ⟨base,skipped⟩ := literalBase unsigned
  dsimp -zeta only at read
  extract_lets digits magnitude number at read
  by_cases none : digits = []
  · rw [if_pos none] at read
    cases read
  · rw [if_neg none] at read
    by_cases range : S64_MIN ≤ number ∧ number ≤ S64_MAX
    · rw [if_pos range] at read
      have same : number = n := congrArg Prod.fst (Option.some.inj read)
      rw [same] at range
      exact range
    · rw [if_neg range] at read
      cases read

theorem wholeNumber_range (whole : wholeNumber value = some n) : InRange n := by
  rw [wholeNumber] at whole
  split at whole
  case h_1 number finish read =>
    split at whole
    · cases whole
      exact stoll_range read
    · cases whole
  case h_2 => cases whole

theorem mapped_range (name : Text) (found : (wholeNumber value).map (fun n => (name,n)) = some entry) : InRange entry.2 := by
  obtain ⟨n,whole,rfl⟩ := Option.map_eq_some_iff.mp found
  exact wholeNumber_range whole

theorem defineLine_range (found : defineLine line = some entry) : InRange entry.2 := by
  rw [defineLine] at found
  dsimp only at found
  split at found
  · split at found
    · exact mapped_range _ found
    · cases found
  · cases found

theorem constexprLine_range (found : constexprLine line = some entry) : InRange entry.2 := by
  rw [constexprLine] at found
  dsimp only at found
  split at found
  · cases found
  · split at found
    · split at found
      · cases found
      · exact mapped_range _ found
    · cases found

theorem prescanConstants_bounded (input : Text) : Bounded (prescanConstants input) := by
  rw [prescanConstants]
  refine List.foldlRecOn (motive:=Bounded) _ _ (fun entry here => nomatch here) fun constants before line _ entry here => ?_
  obtain here | here := List.mem_append.mp here
  · exact constexprLine_range (Option.mem_toList.mp here)
  · obtain here | here := List.mem_append.mp here
    · exact defineLine_range (Option.mem_toList.mp here)
    · exact before entry here

theorem lookup_mem {entries : List (Text × α)} (found : entries.lookup name = some value) : (name,value) ∈ entries := by
  induction entries with
  | nil => cases found
  | cons entry rest ih =>
      obtain ⟨key,kept⟩ := entry
      rw [List.lookup_cons] at found
      split at found
      case h_1 same =>
        cases found
        rw [eq_of_beq same]
        exact List.mem_cons_self
      case h_2 => exact List.mem_cons_of_mem _ (ih found)

-- A number on 64 bits, or an assertion.
theorem constantValue_outcome (bounded : Bounded constants) (expr : Text) :
    (∃ n, constantValue constants expr = .ok n ∧ InRange n) ∨ ∃ message, constantValue constants expr = .error (.assertion message) := by
  unfold constantValue
  dsimp only
  split
  case h_1 number listed => exact .inl ⟨number,rfl,bounded _ (lookup_mem listed)⟩
  case h_2 =>
    split
    case h_1 number whole => exact .inl ⟨number,rfl,wholeNumber_range whole⟩
    case h_2 => exact .inr ⟨_,rfl⟩

end Numbers

section Loops
variable {header : ForHeader} {expansion : Int → Text} {turns : Nat}

-- A loop whose bound every 64-bit value keeps to.
def ForHeader.endless (header : ForHeader) : Bool :=
  (header.comparator = .atMost && header.limit = S64_MAX) || (header.comparator = .atLeast && header.limit = S64_MIN)

-- What the header of a @for stands for, once it is read.
structure ForHeader.Sound (header : ForHeader) : Prop where
  start : InRange header.start
  limit : InRange header.limit
  step : header.step = 1 ∨ header.step = -1

theorem forStep_cases (increment : Text) : forStep increment = 1 ∨ forStep increment = -1 ∨ forStep increment = 0 := by
  unfold forStep
  split
  · exact .inl rfl
  · split
    · exact .inr (.inl rfl)
    · exact .inr (.inr rfl)

theorem forHeader_outcome (bounded : Bounded constants) (text : Text) :
    (∃ header, forHeader constants text = .ok header ∧ header.Sound) ∨
      ∃ message, forHeader constants text = .error (.assertion message) := by
  unfold forHeader
  split
  case h_2 => exact .inr ⟨_,rfl⟩
  case h_1 first second rest found =>
  dsimp only
  split
  case isFalse => exact .inr ⟨_,rfl⟩
  case isTrue =>
  split
  case h_1 => exact .inr ⟨_,rfl⟩
  case h_2 comparator condition compared =>
  obtain ⟨start,read,range⟩ | ⟨message,failed⟩ :=
    constantValue_outcome bounded ((trim (text.take first.begin)).dropWhile (· ≠ '=') |>.drop 1)
  · obtain ⟨limit,read',range'⟩ | ⟨message,failed⟩ := constantValue_outcome bounded condition
    · rw [read,ok_bind,read',ok_bind]
      split
      case isTrue => exact .inr ⟨_,rfl⟩
      case isFalse moving =>
        obtain up | down | still := forStep_cases (trim (text.drop (second.begin + 1)))
        · exact .inl ⟨_,rfl,range,range',.inl up⟩
        · exact .inl ⟨_,rfl,range,range',.inr down⟩
        · exact absurd still moving
    · rw [read,ok_bind,failed]
      exact .inr ⟨_,rfl⟩
  · rw [failed]
    exact .inr ⟨_,rfl⟩

theorem nextValue_range (value step : Int) : InRange (nextValue value step) := by
  have low := Int.le_bmod (x:=value + step) (m:=18446744073709551616) (by omega)
  have high := Int.bmod_lt (x:=value + step) (m:=18446744073709551616) (by omega)
  unfold InRange S64_MIN S64_MAX nextValue
  omega

theorem nextValue_inside {value step : Int} (inside : InRange (value + step)) : nextValue value step = value + step := by
  unfold InRange S64_MIN S64_MAX at inside
  exact Int.bmod_eq_of_le (by omega) (by omega)

theorem expandFor_none (past : header.comparator.holds header.limit value = false) :
    expandFor header expansion turns value = .ok [] := by
  unfold expandFor
  exact if_neg (by rw [past]; decide)

theorem expandFor_stop (more : header.comparator.holds header.limit value = true) :
    expandFor header expansion 0 value = .error .unfinished := by
  rw [expandFor,if_pos more]

theorem expandFor_turn (more : header.comparator.holds header.limit value = true) :
    expandFor header expansion (turns + 1) value =
      expandFor header expansion turns (nextValue value header.step) >>= fun rest => .ok (expansion value ++ rest) := by
  rw [expandFor,if_pos more]
  rfl

theorem expandFor_fault (failed : expandFor header expansion turns value = .error fault) : fault = .unfinished := by
  induction turns generalizing value with
  | zero =>
      by_cases more : header.comparator.holds header.limit value = true
      · rw [expandFor_stop more] at failed
        cases failed
        rfl
      · rw [expandFor_none (Bool.eq_false_iff.mpr more)] at failed
        cases failed
  | succ turns ih =>
      by_cases more : header.comparator.holds header.limit value = true
      · rw [expandFor_turn more] at failed
        cases rest : expandFor header expansion turns (nextValue value header.step) with
        | ok text =>
            rw [rest] at failed
            cases failed
        | error other =>
            rw [rest] at failed
            cases failed
            exact ih rest
      · rw [expandFor_none (Bool.eq_false_iff.mpr more)] at failed
        cases failed

-- More turns than a loop needs leave its text as it is.
theorem expandFor_more (done : expandFor header expansion turns value = .ok text) (more : turns ≤ turns') :
    expandFor header expansion turns' value = .ok text := by
  induction turns generalizing value text turns' with
  | zero =>
      by_cases holds : header.comparator.holds header.limit value = true
      · rw [expandFor_stop holds] at done
        cases done
      · have past := Bool.eq_false_iff.mpr holds
        rw [expandFor_none past] at done ⊢
        exact done
  | succ turns ih =>
      by_cases holds : header.comparator.holds header.limit value = true
      · cases turns' with
        | zero => omega
        | succ turns' =>
            rw [expandFor_turn holds] at done ⊢
            cases rest : expandFor header expansion turns (nextValue value header.step) with
            | error fault =>
                rw [rest] at done
                cases done
            | ok text =>
                rw [rest] at done
                rw [ih rest (Nat.le_of_succ_le_succ more)]
                exact done
      · have past := Bool.eq_false_iff.mpr holds
        rw [expandFor_none past] at done ⊢
        exact done

-- The loop ends where a measure of its values shrinks.
theorem expandFor_ends (measure : Int → Nat)
    (shrinks : ∀ value,InRange value → header.comparator.holds header.limit value = true →
      measure (nextValue value header.step) < measure value)
    (range : InRange value) (enough : measure value ≤ turns) : ∃ text, expandFor header expansion turns value = .ok text := by
  induction turns generalizing value with
  | zero =>
      by_cases more : header.comparator.holds header.limit value = true
      · have := shrinks value range more
        omega
      · exact ⟨[],expandFor_none (Bool.eq_false_iff.mpr more)⟩
  | succ turns ih =>
      by_cases more : header.comparator.holds header.limit value = true
      · have smaller := shrinks value range more
        obtain ⟨text,rest⟩ := ih (nextValue_range value header.step) (by omega)
        refine ⟨expansion value ++ text,?_⟩
        rw [expandFor_turn more,rest]
        rfl
      · exact ⟨[],expandFor_none (Bool.eq_false_iff.mpr more)⟩

-- All values are on one side of such a bound.
theorem endless_holds (endless : header.endless = true) (range : InRange value) :
    header.comparator.holds header.limit value = true := by
  unfold ForHeader.endless at endless
  obtain up | down := (Bool.or_eq_true _ _).mp endless
  · obtain ⟨comparator,limit⟩ := (Bool.and_eq_true _ _).mp up
    rw [of_decide_eq_true comparator,of_decide_eq_true limit]
    exact decide_eq_true range.2
  · obtain ⟨comparator,limit⟩ := (Bool.and_eq_true _ _).mp down
    rw [of_decide_eq_true comparator,of_decide_eq_true limit]
    exact decide_eq_true range.1

theorem expandFor_endless (endless : header.endless = true) (range : InRange value) :
    expandFor header expansion turns value = .error .unfinished := by
  induction turns generalizing value with
  | zero => exact expandFor_stop (endless_holds endless range)
  | succ turns ih =>
      rw [expandFor_turn (endless_holds endless range),ih (nextValue_range _ _)]
      rfl

theorem expandFor_plenty (sound : header.Sound) (direction : forDirection header = true) (finite : header.endless = false)
    (enough : plenty ≤ turns) : ∃ text, expandFor header expansion turns header.start = .ok text := by
  obtain ⟨start,limit,step⟩ := sound
  have low := start.1
  have high := start.2
  unfold S64_MIN at low
  unfold S64_MAX at high
  unfold plenty at enough
  obtain up | down := step
  · refine expandFor_ends (fun value => (S64_MAX - value).toNat) (fun value range more => ?_) start
      (by unfold S64_MAX; omega)
    have below : value < S64_MAX := by
      unfold forDirection at direction
      unfold ForHeader.endless at finite
      rw [up] at direction
      have capped := limit.2
      cases same : header.comparator <;> rw [same] at direction finite more
      case atMost =>
        have last : header.limit ≠ S64_MAX := by simpa using finite
        have := of_decide_eq_true more
        omega
      case less =>
        have := of_decide_eq_true more
        omega
      all_goals cases direction
    have next : nextValue value header.step = value + 1 := by
      rw [up]
      refine nextValue_inside ⟨?_,Int.add_one_le_of_lt below⟩
      have := range.1
      omega
    rw [next]
    omega
  · refine expandFor_ends (fun value => (value - S64_MIN).toNat) (fun value range more => ?_) start
      (by unfold S64_MIN; omega)
    have above : S64_MIN < value := by
      unfold forDirection at direction
      unfold ForHeader.endless at finite
      rw [down] at direction
      have capped := limit.1
      cases same : header.comparator <;> rw [same] at direction finite more
      case atLeast =>
        have last : header.limit ≠ S64_MIN := by simpa using finite
        have := of_decide_eq_true more
        omega
      case greater =>
        have := of_decide_eq_true more
        omega
      all_goals cases direction
    have next : nextValue value header.step = value - 1 := by
      rw [down]
      refine nextValue_inside ⟨by omega,?_⟩
      have := range.2
      omega
    rw [next]
    omega

end Loops

section ForDirective
variable {turns directivePos : Nat}

-- @for whose header is the last of the input, or whose loop has no end.
def cutFor (p : Preprocessor) : Bool :=
  match scanBalanced p.input p.pos '(' ')' with
  | none => false
  | some headerClose =>
    match forHeader p.constants (substr p.input p.pos (headerClose - p.pos)) with
    | .error _ => false
    | .ok header =>
      let brace := skipWhile isSpace p.input (headerClose + 1)
      match p.input[brace]? with
      | none => true
      | some c => c = '{' && (scanBalanced p.input (brace + 1) '{' '}').isSome && forDirection header && header.endless

-- What for_state does once the header is read.
def forBody (turns directivePos : Nat) (header : ForHeader) (p : Preprocessor) : Except Fault Preprocessor :=
  match scanBalanced p.input p.pos '{' '}' with
  | none => .error (.assertion "Unterminated @for body")
  | some bodyClose =>
    consumeTo (bodyClose + 1) p >>= fun q =>
      if forDirection header then
        expandFor header (forExpansion p.lineNo (indentation q.input directivePos)
          (substr p.input p.pos (bodyClose - p.pos)) header.loopVariable) turns header.start >>= fun expanded =>
            .ok (write (expanded ++ lineDirective q.lineNo) q)
      else .error (.assertion "@for increment moves away from loop condition")

theorem forState_eq (p : Preprocessor) : forState turns directivePos p =
    match scanBalanced p.input p.pos '(' ')' with
    | none => .error (.assertion "Unterminated @for header")
    | some headerClose =>
      consumeTo (headerClose + 1) p >>= fun q =>
        forHeader q.constants (substr p.input p.pos (headerClose - p.pos)) >>= fun header =>
          expect '{' "@for expects a braced body" (skipSpaces q) >>= forBody turns directivePos header := rfl

theorem forBody_ends {header : ForHeader} (sound : header.Sound) (p : Preprocessor) :
    Ends ((scanBalanced p.input p.pos '{' '}').isSome && forDirection header && header.endless) turns p
      (forBody turns directivePos header p) := by
  unfold forBody
  cases found : scanBalanced p.input p.pos '{' '}' with
  | none => trivial
  | some close =>
      obtain ⟨low,high⟩ := scanBalanced_bounds found
      obtain ⟨q,consumed,_,onward⟩ := consumeTo_fits (close + 1) p (by omega) (by omega)
      dsimp only
      rw [consumed,ok_bind]
      cases direction : forDirection header with
      | false => trivial
      | true =>
          rw [if_pos rfl]
          cases endless : header.endless with
          | true =>
              rw [expandFor_endless endless sound.start]
              trivial
          | false =>
              show Settles _ _ _
              cases expanded : expandFor header _ turns header.start with
              | ok text => exact onward.trans (write_onward _ _)
              | error fault =>
                  rw [expandFor_fault expanded]
                  show turns < plenty
                  by_contra enough
                  obtain ⟨text,done⟩ := expandFor_plenty sound direction endless (Nat.le_of_not_lt enough)
                  rw [done] at expanded
                  cases expanded

theorem Ends.after {cut : Bool} (first : Onward p q) (ends : Ends cut turns q r) : Ends cut turns p r := by
  cases cut with
  | true => exact ends
  | false =>
      match r,ends with
      | .ok _,further => exact first.trans further
      | .error (.assertion _),_ => trivial
      | .error .unfinished,short => exact short

theorem forState_ends (bounded : Bounded p.constants) : Ends (cutFor p) turns p (forState turns directivePos p) := by
  rw [forState_eq,cutFor]
  cases found : scanBalanced p.input p.pos '(' ')' with
  | none => trivial
  | some close =>
      obtain ⟨low,high⟩ := scanBalanced_bounds found
      obtain ⟨q,consumed,at_close,onward⟩ := consumeTo_fits (close + 1) p (by omega) (by omega)
      dsimp only
      rw [consumed,ok_bind,onward.constants]
      obtain ⟨header,read,sound⟩ | ⟨message,failed⟩ := forHeader_outcome bounded (substr p.input p.pos (close - p.pos))
      case inr =>
        rw [failed]
        trivial
      case inl =>
        rw [read,ok_bind]
        dsimp only
        obtain ⟨_,spaces⟩ := skipSpaces_ahead q
        have brace : (skipSpaces q).pos = skipWhile isSpace p.input (close + 1) := by
          rw [← onward.input,← at_close]
          rfl
        have here : p.input[skipWhile isSpace p.input (close + 1)]? = (ahead (skipSpaces q)).head? := by
          rw [← ahead_head,spaces.input,onward.input,brace]
        rw [here]
        refine ends_expect _ (fun none => by rw [none]; rfl) (fun d rest head other => ?_) fun rest r head _ further pos => ?_
        · rw [head]
          show ((decide (d = '{') && _) && _ && _) = false
          rw [decide_eq_false other]
          rfl
        · rw [head]
          have same : r.input = p.input := (further.input.trans spaces.input).trans onward.input
          rw [brace] at pos
          have ends : Ends _ turns r (forBody turns directivePos header r) := forBody_ends sound r
          rw [same,pos] at ends
          exact Ends.after ((onward.trans spaces).trans further) ends

end ForDirective

end Preprocessor
