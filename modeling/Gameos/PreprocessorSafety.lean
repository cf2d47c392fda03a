import Gameos.PreprocessorLoops

-- Which sources run gets through without a read past their end and without a loop that
-- runs on for ever.
namespace Preprocessor
open SourceLexer (substr tokens Tokenized tokenized)
open FilesystemPaths (Text)

section Steps
variable {tool : Tool} {turns : Nat} {p q : Preprocessor}

-- A literal whose last character is a backslash.
def cutLiteral (text : Text) : Bool := text = ['\\']

-- Where the step from here on reads past the end of the input, or runs on for ever.
def cut (p : Preprocessor) : Bool :=
  match p.state with
  | .normal =>
    if looksAt p "@embed(" then cutEmbed (ahead (advance 7 p))
    else if looksAt p "@enum_values(" then cutName (ahead (advance 13 p))
    else if looksAt p "@enum_to_string(" then cutName (ahead (advance 16 p))
    else if looksAt p "@T(" then false
    else if atFor p then cutFor (advance 1 (skipSpaces (advance 4 p)))
    else false
  | .string | .char => cutLiteral (ahead p)
  | .lineComment | .blockComment => false

theorem looksAt_fits (here : looksAt p text = true) : text.toList.length ≤ (ahead p).length := by
  have same := congrArg List.length (of_decide_eq_true here)
  rw [substr,List.length_take] at same
  change min _ (ahead p).length = _ at same
  omega

theorem looksAt_onward (n : Nat) (here : looksAt p text = true) (size : text.toList.length = 1 + n) :
    Onward (advance 1 p) (advance n (advance 1 p)) := by
  have fits := looksAt_fits here
  refine advance_onward ?_
  rw [ahead_advance,List.length_drop]
  omega

-- A character is copied, and nothing but the position, the line and the output differs.
theorem copy_onward (inside : p.pos < p.input.length) :
    ∃ c rest q, ahead p = c :: rest ∧ copy p = .ok (c,q) ∧ ahead q = rest ∧ Onward (advance 1 p) q := by
  obtain ⟨c,rest,here⟩ := ahead_some inside
  obtain ⟨q,copied,next,onward,pos,_⟩ := copy_cons here
  refine ⟨c,rest,q,here,copied,next,onward.input,onward.enumMap,onward.constants,Nat.le_of_eq pos.symm,fun inside => ?_⟩
  rw [pos]
  exact inside

theorem copyChar_onward (inside : p.pos < p.input.length) : ∃ q, copyChar p = .ok q ∧ Onward (advance 1 p) q := by
  obtain ⟨c,rest,q,_,copied,_,onward⟩ := copy_onward inside
  exact ⟨q,by rw [copyChar,copied]; rfl,onward⟩

theorem Onward.enter (onward : Onward p q) (state : State) : Onward p { q with state := state } :=
  ⟨onward.input,onward.enumMap,onward.constants,onward.pos,onward.inside⟩

theorem copyChar_settles (inside : p.pos < p.input.length) : Settles turns (advance 1 p) (copyChar p) := by
  obtain ⟨q,copied,onward⟩ := copyChar_onward inside
  rw [copied]
  exact onward

theorem quotedState_ends (quote : Char) (inside : p.pos < p.input.length) :
    Ends (cutLiteral (ahead p)) turns (advance 1 p) (quotedState quote p) := by
  obtain ⟨c,rest,q,here,copied,next,onward⟩ := copy_onward inside
  rw [quotedState,copied,ok_bind]
  dsimp only
  by_cases escape : c = '\\'
  · rw [if_pos escape]
    cases rest with
    | nil =>
        rw [here,escape,copyChar,copy_nil next]
        trivial
    | cons d rest =>
        have more : q.pos < q.input.length := by
          have length := congrArg List.length next
          rw [ahead,List.length_drop,List.length_cons] at length
          omega
        obtain ⟨r,copied',further⟩ := copyChar_onward more
        have fine : cutLiteral (ahead p) = false := by
          rw [here]
          exact decide_eq_false fun same => List.cons_ne_nil _ _ (List.cons.inj same).2
        rw [fine,copied']
        have on : Onward q (advance 1 q) := ⟨rfl,rfl,rfl,Nat.le_succ _,fun _ => more⟩
        exact (onward.trans on).trans further
  · have fine : cutLiteral (ahead p) = false := by
      rw [here]
      exact decide_eq_false fun same => escape (List.cons.inj same).1
    rw [if_neg escape,fine]
    show Settles _ _ _
    split
    · exact onward.enter .normal
    · exact onward

theorem lineCommentState_settles (inside : p.pos < p.input.length) : Settles turns (advance 1 p) (lineCommentState p) := by
  obtain ⟨c,rest,q,_,copied,_,onward⟩ := copy_onward inside
  rw [lineCommentState,copied,ok_bind]
  dsimp only
  split
  · exact onward.enter .normal
  · exact onward

theorem blockCommentState_settles (inside : p.pos < p.input.length) : Settles turns (advance 1 p) (blockCommentState p) := by
  obtain ⟨c,rest,q,_,copied,next,onward⟩ := copy_onward inside
  rw [blockCommentState,copied,ok_bind]
  dsimp only
  split
  case isTrue closing =>
    have more : q.pos < q.input.length := by
      by_contra past
      have none : ahead q = [] := List.drop_eq_nil_iff.mpr (Nat.le_of_not_lt past)
      have slash := closing.2
      rw [peek_eq,none] at slash
      cases slash
    obtain ⟨r,copied',further⟩ := copyChar_onward more
    rw [copied']
    have on : Onward q (advance 1 q) := ⟨rfl,rfl,rfl,Nat.le_succ _,fun _ => more⟩
    exact ((onward.trans on).trans further).enter .normal
  case isFalse => exact onward

theorem atFor_onward (here : atFor p = true) : Onward (advance 1 p) (advance 1 (skipSpaces (advance 4 p))) := by
  obtain ⟨word,opening⟩ := (Bool.and_eq_true _ _).mp here
  obtain ⟨_,spaces⟩ := skipSpaces_ahead (advance 4 p)
  refine ((looksAt_onward 3 word rfl).trans spaces).trans (advance_onward ?_)
  cases none : ahead (skipSpaces (advance 4 p)) with
  | nil =>
      rw [peek_eq,none] at opening
      cases opening
  | cons => exact Nat.le_add_left 1 _

theorem normalState_ends (bounded : Bounded p.constants) (inside : p.pos < p.input.length) (normal : p.state = .normal) :
    Ends (cut p) turns (advance 1 p) (normalState tool turns p) := by
  unfold cut normalState
  rw [normal]
  dsimp only
  by_cases embed : looksAt p "@embed(" = true
  · rw [if_pos embed,if_pos embed]
    exact (embedState_ends (advance 7 p)).after (looksAt_onward 6 embed rfl)
  rw [if_neg embed,if_neg embed]
  by_cases values : looksAt p "@enum_values(" = true
  · rw [if_pos values,if_pos values]
    exact (enumValuesState_ends (advance 13 p)).after (looksAt_onward 12 values rfl)
  rw [if_neg values,if_neg values]
  by_cases toString : looksAt p "@enum_to_string(" = true
  · rw [if_pos toString,if_pos toString]
    exact (enumToStringState_ends (advance 16 p)).after (looksAt_onward 15 toString rfl)
  rw [if_neg toString,if_neg toString]
  by_cases typename : looksAt p "@T(" = true
  · rw [if_pos typename,if_pos typename]
    have settled : Ends false turns (advance 3 p) (typenameState (advance 3 p)) := typenameState_settles (advance 3 p)
    exact settled.after (looksAt_onward 2 typename rfl)
  rw [if_neg typename,if_neg typename]
  by_cases loop : atFor p = true
  · rw [if_pos loop,if_pos loop]
    exact (forState_ends (by exact bounded)).after (atFor_onward loop)
  rw [if_neg loop,if_neg loop]
  show Settles _ _ _
  have copied : Settles turns (advance 1 p) (copyChar p) := copyChar_settles inside
  have quoted (state : State) : Settles turns (advance 1 p) (copyChar p >>= fun q => .ok { q with state := state }) := by
    obtain ⟨q,copied,onward⟩ := copyChar_onward inside
    rw [copied]
    exact onward.enter state
  split
  · let counted : Preprocessor := { p with lineNo := (skipSpaces (advance 4 p)).lineNo,state := .normal }
    have same : Onward (advance 1 p) (advance 1 counted) := ⟨rfl,rfl,rfl,Nat.le_refl _,id⟩
    have settled : Ends false turns (advance 1 counted) (copyChar counted) := copyChar_settles inside
    exact settled.after same
  · split
    · exact quoted _
    · split
      · exact quoted _
      · split
        case isTrue line => exact ((looksAt_onward 1 line rfl).trans (write_onward "//".toList _)).enter .lineComment
        case isFalse =>
          split
          case isTrue block => exact ((looksAt_onward 1 block rfl).trans (write_onward "/*".toList _)).enter .blockComment
          case isFalse => exact copied

-- Where nothing is cut short, a step leads further on or asserts; elsewhere it fails.
theorem step_ends (tool : Tool) (turns : Nat) (bounded : Bounded p.constants) (inside : p.pos < p.input.length) :
    Ends (cut p) turns (advance 1 p) (step tool turns p) := by
  unfold step
  cases state : p.state with
  | normal => exact normalState_ends bounded inside state
  | string =>
      rw [cut,state]
      exact quotedState_ends '"' inside
  | char =>
      rw [cut,state]
      exact quotedState_ends '\'' inside
  | lineComment =>
      rw [cut,state]
      exact lineCommentState_settles inside
  | blockComment =>
      rw [cut,state]
      exact blockCommentState_settles inside

theorem bind_ok {first : Except Fault α} {next : α → Except Fault β} (done : (first >>= next) = .ok result) :
    ∃ value, first = .ok value ∧ next value = .ok result := by
  cases first with
  | error fault => cases done
  | ok value => exact ⟨value,rfl,done⟩

theorem forBody_more (done : forBody turns directivePos header p = .ok q) (more : turns ≤ turns') :
    forBody turns' directivePos header p = .ok q := by
  unfold forBody at done ⊢
  split at done
  case h_1 => cases done
  case h_2 close _ =>
    obtain ⟨r,consumed,done⟩ := bind_ok done
    rw [consumed,ok_bind]
    split at done
    case isTrue direction =>
      obtain ⟨text,expanded,done⟩ := bind_ok done
      rw [if_pos direction,expandFor_more expanded more,ok_bind]
      exact done
    case isFalse => cases done

theorem forState_more (done : forState turns directivePos p = .ok q) (more : turns ≤ turns') :
    forState turns' directivePos p = .ok q := by
  rw [forState_eq] at done ⊢
  split at done
  case h_1 => cases done
  case h_2 close _ =>
    obtain ⟨r,consumed,done⟩ := bind_ok done
    obtain ⟨header,read,done⟩ := bind_ok done
    obtain ⟨s,expected,done⟩ := bind_ok done
    rw [consumed,ok_bind,read,ok_bind,expected,ok_bind]
    exact forBody_more done more

-- More turns leave what a step did as it is.
theorem step_more (done : step tool turns p = .ok q) (turns' : Nat) (more : turns ≤ turns') : step tool turns' p = .ok q := by
  unfold step at done ⊢
  cases state : p.state with
  | normal =>
      rw [state] at done
      dsimp only at done ⊢
      unfold normalState at done ⊢
      by_cases loop : atFor p = true
      · rw [if_pos loop] at done ⊢
        split at done <;> rename_i embed
        · rw [if_pos embed]
          exact done
        rw [if_neg embed]
        split at done <;> rename_i values
        · rw [if_pos values]
          exact done
        rw [if_neg values]
        split at done <;> rename_i toString
        · rw [if_pos toString]
          exact done
        rw [if_neg toString]
        split at done <;> rename_i typename
        · rw [if_pos typename]
          exact done
        rw [if_neg typename]
        exact forState_more done more
      · rw [if_neg loop] at done ⊢
        exact done
  | string =>
      rw [state] at done
      exact done
  | char =>
      rw [state] at done
      exact done
  | lineComment =>
      rw [state] at done
      exact done
  | blockComment =>
      rw [state] at done
      exact done

end Steps

-- The states a run on a source goes through.
inductive Reached (tool : Tool) (source : Text) : Preprocessor → Prop where
  | start (cleared : clearState source = .ok p) : Reached tool source p
  | step (before : Reached tool source p) (inside : p.pos < p.input.length) (done : step tool turns p = .ok q) :
      Reached tool source q

section Runs
variable {tool : Tool} {source : Text} {turns left : Nat} {p q : Preprocessor}

theorem loop_past (past : ¬p.pos < p.input.length) : loop tool turns left p = .ok p := by
  unfold loop
  exact if_neg past

theorem loop_stop (inside : p.pos < p.input.length) : loop tool turns 0 p = .error .unfinished := by
  unfold loop
  exact if_pos inside

theorem loop_turn (inside : p.pos < p.input.length) :
    loop tool turns (left + 1) p = step tool turns p >>= loop tool turns left := by
  rw [loop,if_pos inside]

theorem clearState_ok (cleared : clearState source = .ok p) : p.input = source ∧ p.constants = prescanConstants source := by
  obtain ⟨enumMap,_,done⟩ := bind_ok cleared
  cases done
  exact ⟨rfl,rfl⟩

theorem step_onward (bounded : Bounded p.constants) (inside : p.pos < p.input.length) (done : step tool turns p = .ok q) :
    Onward (advance 1 p) q := by
  have ends := step_ends tool turns bounded inside
  rw [done] at ends
  cases here : cut p <;> rw [here] at ends
  · exact ends
  · exact ends.elim

theorem Reached.keeps (reached : Reached tool source p) : p.input = source ∧ Bounded p.constants := by
  induction reached with
  | start cleared =>
      obtain ⟨input,constants⟩ := clearState_ok cleared
      refine ⟨input,?_⟩
      rw [constants]
      exact prescanConstants_bounded source
  | step before inside done ih =>
      have onward := step_onward ih.2 inside done
      refine ⟨onward.input.trans ih.1,?_⟩
      rw [onward.constants]
      exact ih.2

-- A reached state comes up in every run that is given turns enough.
theorem Reached.replayed (reached : Reached tool source p) : ∃ start enough count, clearState source = .ok start ∧
    ∀ turns,enough ≤ turns → ∀ left,loop tool turns (left + count) start = loop tool turns left p := by
  induction reached with
  | start cleared => exact ⟨_,0,0,cleared,fun _ _ _ => rfl⟩
  | @step p turns' q before inside done ih =>
      obtain ⟨start,enough,count,cleared,replay⟩ := ih
      refine ⟨start,max enough turns',count + 1,cleared,fun turns more left => ?_⟩
      have again := replay turns (by omega) (left + 1)
      rw [loop_turn inside,step_more done turns (by omega),ok_bind] at again
      rw [← again,Nat.add_right_comm,Nat.add_assoc]

-- Where no state of a run is cut short, a loop asserts, or ends within so many turns.
theorem loop_settles (turns left : Nat) (fine : ∀ p,Reached tool source p → p.pos < source.length → cut p = false)
    (reached : Reached tool source p) : match loop tool turns left p with
      | .ok _ | .error (.assertion _) => True
      | .error (.outOfRange _) => False
      | .error .unfinished => turns < plenty ∨ left < source.length - p.pos := by
  induction left generalizing p with
  | zero =>
      by_cases inside : p.pos < p.input.length
      · rw [loop_stop inside]
        rw [reached.keeps.1] at inside
        exact .inr (Nat.sub_pos_of_lt inside)
      · rw [loop_past inside]
        trivial
  | succ left ih =>
      by_cases inside : p.pos < p.input.length
      · obtain ⟨input,bounded⟩ := reached.keeps
        have ends := step_ends tool turns bounded inside
        rw [fine p reached (by rw [← input]; exact inside)] at ends
        rw [loop_turn inside]
        cases done : step tool turns p with
        | ok q =>
            have onward := step_onward bounded inside done
            have rest := ih (reached.step inside done)
            have further : p.pos + 1 ≤ q.pos := onward.pos
            rw [ok_bind]
            split <;> rename_i last <;> rw [last] at rest
            · trivial
            · trivial
            · exact rest
            · dsimp only at rest
              omega
        | error fault =>
            rw [done] at ends
            cases fault with
            | assertion => trivial
            | outOfRange => exact ends
            | unfinished => exact .inl ends
      · rw [loop_past inside]
        trivial

theorem run_cleared (cleared : clearState source = .ok p) :
    run tool turns source = loop tool turns turns p >>= fun q => .ok (q.hasEmbed,q.output) := by
  rw [run,cleared]
  rfl

theorem run_fault (cleared : clearState source = .ok p) (failed : loop tool turns turns p = .error fault) :
    run tool turns source = .error fault := by
  rw [run_cleared cleared,failed]
  rfl

theorem clearState_fault (failed : clearState source = .error fault) : ∃ message, fault = .assertion message := by
  unfold clearState at failed
  cases found : prescanEnums source with
  | ok enumMap =>
      rw [found] at failed
      cases failed
  | error other =>
      rw [found] at failed
      cases failed
      exact prescan_fault found

end Runs

-- The tokens of a source in order and to its end, prescans and a run that end, and no
-- character read that the source does not have.
structure Safe (tool : Tool) (source : Text) : Prop where
  tokenized : ∀ position,Tokenized source position (tokens source position).length
  prescanned : ∀ turns,(lexemes source).length ≤ turns → prescan turns (lexemes source) [] = prescanEnums source
  terminates : ∃ enough,∀ turns,enough ≤ turns → run tool turns source ≠ .error .unfinished
  inside : ∀ turns position,run tool turns source ≠ .error (.outOfRange position)

section Safety
variable {tool : Tool} {source : Text} {p : Preprocessor}

theorem cut_unsafe (reached : Reached tool source p) (inside : p.pos < source.length) (short : cut p = true) :
    ¬Safe tool source := by
  rintro ⟨_,_,⟨enough,terminates⟩,within⟩
  obtain ⟨start,enough',count,cleared,replay⟩ := reached.replayed
  obtain ⟨input,bounded⟩ := reached.keeps
  have more : p.pos < p.input.length := by
    rw [input]
    exact inside
  let left := enough + enough'
  have again := replay (left + 1 + count) (by omega) (left + 1)
  have ends := step_ends tool (left + 1 + count) bounded more
  rw [loop_turn more] at again
  rw [short] at ends
  cases done : step tool (left + 1 + count) p with
  | ok q =>
      rw [done] at ends
      exact ends
  | error fault =>
      rw [done] at ends again
      cases fault with
      | assertion => exact ends
      | outOfRange position => exact within _ position (run_fault cleared again)
      | unfinished => exact terminates _ (by omega) (run_fault cleared again)

-- Such a source is one no state of the run on which stands before an escape, a name or a
-- header that the input ends in, or before a loop over all numbers.
theorem run_safe_exact (tool : Tool) (source : Text) :
    Safe tool source ↔ ∀ p,Reached tool source p → p.pos < source.length → cut p = false := by
  constructor
  · intro safe p reached inside
    by_contra short
    exact cut_unsafe reached inside ((Bool.not_eq_false _).mp short) safe
  · intro fine
    have outcome (turns : Nat) : match run tool turns source with
        | .ok _ | .error (.assertion _) => True
        | .error (.outOfRange _) => False
        | .error .unfinished => turns < plenty ∨ turns < source.length := by
      cases cleared : clearState source with
      | error fault =>
          obtain ⟨message,rfl⟩ := clearState_fault cleared
          rw [run,cleared]
          trivial
      | ok start =>
          have settled := loop_settles turns turns fine (.start cleared)
          cases done : loop tool turns turns start with
          | ok q =>
              rw [run_cleared cleared,done]
              trivial
          | error fault =>
              rw [run_fault cleared done]
              rw [done] at settled
              cases fault with
              | assertion => trivial
              | outOfRange => exact settled
              | unfinished => exact settled.imp_right fun short => Nat.lt_of_lt_of_le short (Nat.sub_le _ _)
    refine ⟨tokenized source,fun turns enough => (prescan_enough (Nat.le_refl _) enough []).symm,
      ⟨max plenty source.length,fun turns enough unfinished => ?_⟩,fun turns position past => ?_⟩
    · have short := outcome turns
      rw [unfinished] at short
      dsimp only at short
      omega
    · have failed := outcome turns
      rw [past] at failed
      exact failed

def noFiles : Tool := ⟨[],fun _ _ => none⟩

-- An escape, a directive and a loop that are none of these.
theorem escape_unsafe : ¬(∀ tool source,Safe tool source) ∧ ¬Safe noFiles "@embed(".toList ∧
    ¬Safe noFiles "@for(i=0;i<=9223372036854775807;i++)\x7b\x7d".toList := by
  refine ⟨fun safe => ?_,?_,?_⟩
  · let opened : Preprocessor := ⟨"\"\\".toList,1,1,.string,['"'],false,[],[]⟩
    have entered : step noFiles 0 ⟨"\"\\".toList,0,1,.normal,[],false,[],[]⟩ = .ok opened := rfl
    exact cut_unsafe (.step (.start rfl) (by decide) entered) (by decide) rfl (safe noFiles "\"\\".toList)
  · exact cut_unsafe (.start rfl) (by decide) rfl
  · exact cut_unsafe (.start rfl) (by decide) rfl

end Safety

end Preprocessor
