import Gameos.TransitionRuns

-- gameos/global_constructor_handling.hh: the destructors registered for the exit, and
-- __cxa_finalize, whose destructors may register and finalize themselves.
namespace GlobalDestructors
open TransitionRuns

-- A null pointer is 0.
structure AtExitEntry where
  destructor : Nat
  object : Nat
  dsoHandle : Nat
deriving DecidableEq, Repr

def maxAtExitEntries : Nat := 32

-- A call of __cxa_finalize under way: the loop that pops, or the one that goes down to
-- `position` through the slots and marks.
inductive Walk where
  | popping
  | marking (dsoHandle position : Nat)
deriving DecidableEq, Repr

-- The registrations are numbered in order. A call of a destructor is logged with the
-- number of the registration it is for.
inductive Event where
  | registered (number : Nat) (entry : AtExitEntry)
  | entered (dsoHandle : Nat)
  | called (number : Nat)
  | returned (dsoHandle : Nat)
deriving DecidableEq, Repr

structure Machine where
  atExitEntries : Nat → AtExitEntry
  atExitEntryCount : Nat
  -- the innermost first
  walks : List Walk
  -- whether the program or a destructor runs, and not a loop of __cxa_finalize
  outside : Bool
  numbers : Nat → Nat
  made : Nat
  log : List Event

def booted : Machine := ⟨fun _ => ⟨0,0,0⟩,0,[],true,fun _ => 0,0,[]⟩

def put (slots : Nat → α) (i : Nat) (value : α) : Nat → α := fun j => if j = i then value else slots j

def cxaAtexit (m : Machine) (entry : AtExitEntry) : Int × Machine :=
  if m.atExitEntryCount = maxAtExitEntries then (-1,m)
  else
    (0,{ m with
      atExitEntries := put m.atExitEntries m.atExitEntryCount entry
      atExitEntryCount := m.atExitEntryCount + 1
      numbers := put m.numbers m.atExitEntryCount m.made
      made := m.made + 1
      log := m.log ++ [.registered m.made entry] })

def cxaFinalize (m : Machine) (dsoHandle : Nat) : Machine :=
  { m with
    walks := (if dsoHandle = 0 then .popping else .marking dsoHandle m.atExitEntryCount) :: m.walks
    outside := false
    log := m.log ++ [.entered dsoHandle] }

-- Back in the code that called __cxa_finalize.
def comeBack (m : Machine) (rest : List Walk) (dsoHandle : Nat) : Machine :=
  { m with walks := rest,outside := true,log := m.log ++ [.returned dsoHandle] }

-- while (at_exit_entry_count != 0), one turn
def popTurn (m : Machine) (rest : List Walk) : Machine :=
  if m.atExitEntryCount = 0 then comeBack m rest 0
  else
    let last := m.atExitEntryCount - 1
    if (m.atExitEntries last).destructor ≠ 0 then
      { m with atExitEntryCount := last,outside := true,log := m.log ++ [.called (m.numbers last)] }
    else { m with atExitEntryCount := last }

-- for (ssize i = at_exit_entry_count; i != 0; --i), one turn
def markTurn (m : Machine) (rest : List Walk) (dsoHandle : Nat) : Nat → Machine
  | 0 => comeBack m rest dsoHandle
  | i + 1 =>
    let entry := m.atExitEntries i
    if entry.destructor = 0 ∨ entry.dsoHandle ≠ dsoHandle then { m with walks := .marking dsoHandle i :: rest }
    else
      { m with
        atExitEntries := put m.atExitEntries i { entry with destructor := 0 }
        walks := .marking dsoHandle i :: rest
        outside := true
        log := m.log ++ [.called (m.numbers i)] }

-- What happens next: the code outside calls or returns, or a loop goes on.
inductive Call where
  | register (entry : AtExitEntry)
  | finalize (dsoHandle : Nat)
  | leave
  | turn
deriving DecidableEq, Repr

def next (m : Machine) : Call → Option Machine
  | .register entry => if m.outside then some (cxaAtexit m entry).2 else none
  | .finalize dsoHandle => if m.outside then some (cxaFinalize m dsoHandle) else none
  -- a destructor comes back to the loop that called it
  | .leave => if m.outside ∧ m.walks ≠ [] then some { m with outside := false } else none
  | .turn =>
    if m.outside then none
    else
      match m.walks with
      | [] => none
      | .popping :: rest => some (popTurn m rest)
      | .marking dsoHandle position :: rest => some (markTurn m rest dsoHandle position)

def Step (m : Machine) (call : Call) (n : Machine) : Prop := next m call = some n

-- What the log says when every destructor runs once and in reverse.
structure Orderly (log : List Event) : Prop where
  once : ∀ number,log.count (.called number) ≤ 1
  complete : ∀ before dsoHandle after,log = before ++ .returned dsoHandle :: after →
    ∀ number entry,.registered number entry ∈ before → entry.destructor ≠ 0 →
      dsoHandle = 0 ∨ entry.dsoHandle = dsoHandle → .called number ∈ before
  -- a call in which nothing is registered or finalized
  reversed : ∀ before dsoHandle (ran : List Nat) after,log = before ++ .entered dsoHandle :: (ran.map Event.called ++ after) →
    ran.Pairwise (· > ·)

-- A registration for an object whose walk is under way stands where the walk still comes
-- by, and a walk comes by no slot above the count that held an entry of its object.
def Admits (m : Machine) : Call → Prop
  | .register entry => entry.destructor ≠ 0 → ∀ position,.marking entry.dsoHandle position ∈ m.walks →
    m.atExitEntryCount < position ∨ m.atExitEntryCount = maxAtExitEntries
  | .turn => ∀ dsoHandle i,m.walks.head? = some (.marking dsoHandle (i + 1)) →
    (m.atExitEntries i).destructor ≠ 0 → (m.atExitEntries i).dsoHandle = dsoHandle → i < m.atExitEntryCount
  | _ => True

def Walk.limit (count : Nat) : Walk → Nat
  | .popping => count
  | .marking _ position => position

-- The calls at the end of the log are those of the innermost walk; what it has still to
-- come by was registered before all of them.
structure Trailing (m : Machine) (ran : List Nat) (walk : Walk) : Prop where
  below : walk.limit m.atExitEntryCount ≤ m.atExitEntryCount
  earlier : ∀ i < walk.limit m.atExitEntryCount,∀ number ∈ ran,m.numbers i < number

structure Sound (m : Machine) : Prop extends Orderly m.log where
  fresh : ∀ i < m.atExitEntryCount,(m.atExitEntries i).destructor ≠ 0 → .called (m.numbers i) ∉ m.log
  past : ∀ number,.called number ∈ m.log → number < m.made
  recorded : ∀ number entry,.registered number entry ∈ m.log → number < m.made ∧ (entry.destructor ≠ 0 →
    .called number ∈ m.log ∨ ∃ i < m.atExitEntryCount,m.numbers i = number ∧ m.atExitEntries i = entry)
  held : ∀ i < m.atExitEntryCount,m.numbers i < m.made
  ordered : ∀ i j,i < j → j < m.atExitEntryCount → m.numbers i < m.numbers j
  ahead : ∀ dsoHandle position,.marking dsoHandle position ∈ m.walks → ∀ i < m.atExitEntryCount,
    (m.atExitEntries i).destructor ≠ 0 → (m.atExitEntries i).dsoHandle = dsoHandle → i < position
  named : ∀ dsoHandle position,.marking dsoHandle position ∈ m.walks → dsoHandle ≠ 0
  trailing : ∀ before dsoHandle (ran : List Nat),m.log = before ++ .entered dsoHandle :: ran.map Event.called →
    ∃ walk rest,m.walks = walk :: rest ∧ Trailing m ran walk

section Logs
variable {log : List Event} {event : Event}

theorem put_same : put slots i value i = value := if_pos rfl

theorem put_other (other : j ≠ i) : put slots i value j = slots j := if_neg other

theorem snoc_cases (split : log ++ [event] = before ++ rest) :
    rest = [] ∨ ∃ rest',rest = rest' ++ [event] ∧ log = before ++ rest' := by
  rcases List.eq_nil_or_concat rest with none | ⟨rest',last,rfl⟩
  · exact .inl none
  · rw [List.concat_eq_append,← List.append_assoc] at split
    obtain ⟨same,one⟩ := List.append_inj' split rfl
    cases one
    exact .inr ⟨rest',List.concat_eq_append,same⟩

-- Where a segment of calls ends the longer log, the last of them is new.
theorem segment_cases (split : log ++ [event] = before ++ .entered dsoHandle :: List.map Event.called ran) :
    (ran = [] ∧ event = .entered dsoHandle ∧ log = before) ∨
      ∃ ran' number,ran = ran' ++ [number] ∧ event = .called number ∧
        log = before ++ .entered dsoHandle :: ran'.map Event.called := by
  rcases List.eq_nil_or_concat ran with rfl | ⟨ran',number,rfl⟩
  · obtain ⟨same,one⟩ := List.append_inj' split rfl
    cases one
    exact .inl ⟨rfl,rfl,same⟩
  · rw [List.concat_eq_append,List.map_append,← List.cons_append,← List.append_assoc] at split
    obtain ⟨same,one⟩ := List.append_inj' split rfl
    cases one
    exact .inr ⟨ran',number,List.concat_eq_append,rfl,same⟩

theorem once_snoc (once : ∀ number,log.count (.called number) ≤ 1)
    (fresh : ∀ number,event = .called number → event ∉ log) (number : Nat) :
    (log ++ [event]).count (.called number) ≤ 1 := by
  rw [List.count_append]
  by_cases same : event = .called number
  · have none := List.count_eq_zero.mpr (fresh number same)
    rw [same] at none ⊢
    have one : [Event.called number].count (.called number) = 1 := List.count_singleton_self
    omega
  · rw [List.count_singleton,if_neg (by simpa using same)]
    exact once number

theorem complete_snoc (orderly : Orderly log) (returned : ∀ dsoHandle,event = .returned dsoHandle →
      ∀ number entry,.registered number entry ∈ log → entry.destructor ≠ 0 →
        dsoHandle = 0 ∨ entry.dsoHandle = dsoHandle → .called number ∈ log)
    (before : List Event) (dsoHandle : Nat) (after : List Event)
    (split : log ++ [event] = before ++ .returned dsoHandle :: after) (number : Nat) (entry : AtExitEntry)
    (registered : .registered number entry ∈ before) (real : entry.destructor ≠ 0)
    (mine : dsoHandle = 0 ∨ entry.dsoHandle = dsoHandle) : .called number ∈ before := by
  rcases snoc_cases split with none | ⟨rest,shape,earlier⟩
  · cases none
  · cases rest with
    | nil =>
        cases shape
        rw [List.append_nil] at earlier
        rw [← earlier] at registered ⊢
        exact returned dsoHandle rfl number entry registered real mine
    | cons first rest =>
        cases shape
        exact orderly.complete before dsoHandle rest earlier number entry registered real mine

theorem reversed_snoc (orderly : Orderly log) (called : ∀ before dsoHandle (ran : List Nat) number,
      log = before ++ .entered dsoHandle :: ran.map Event.called → event = .called number → ∀ n ∈ ran,number < n)
    (before : List Event) (dsoHandle : Nat) (ran : List Nat) (after : List Event)
    (split : log ++ [event] = before ++ .entered dsoHandle :: (ran.map Event.called ++ after)) :
    ran.Pairwise (· > ·) := by
  rcases List.eq_nil_or_concat after with rfl | ⟨after',last,rfl⟩
  · rw [List.append_nil] at split
    rcases segment_cases split with ⟨rfl,_,_⟩ | ⟨ran',number,rfl,new,earlier⟩
    · exact List.Pairwise.nil
    · refine List.pairwise_append.mpr ⟨?_,List.pairwise_singleton _ _,fun n present last here => ?_⟩
      · exact orderly.reversed before dsoHandle ran' [] (by rw [List.append_nil]; exact earlier)
      · rw [List.mem_singleton.mp here]
        exact called before dsoHandle ran' number earlier new n present
  · rw [List.concat_eq_append,← List.append_assoc,← List.cons_append,← List.append_assoc] at split
    obtain ⟨same,_⟩ := List.append_inj' split rfl
    exact orderly.reversed before dsoHandle ran after' same

theorem orderly_snoc (orderly : Orderly log) (fresh : ∀ number,event = .called number → event ∉ log)
    (returned : ∀ dsoHandle,event = .returned dsoHandle → ∀ number entry,.registered number entry ∈ log →
      entry.destructor ≠ 0 → dsoHandle = 0 ∨ entry.dsoHandle = dsoHandle → .called number ∈ log)
    (called : ∀ before dsoHandle (ran : List Nat) number,
      log = before ++ .entered dsoHandle :: ran.map Event.called → event = .called number → ∀ n ∈ ran,number < n) :
    Orderly (log ++ [event]) :=
  ⟨once_snoc orderly.once fresh,complete_snoc orderly returned,reversed_snoc orderly called⟩

end Logs

section Steps
variable {m n : Machine} {rest : List Walk}

theorem booted_sound : Sound booted where
  once _ := Nat.zero_le _
  complete before dsoHandle after split := by
    have length := congrArg List.length split
    rw [List.length_append,List.length_cons] at length
    cases length
  reversed before dsoHandle ran after split := by
    have length := congrArg List.length split
    rw [List.length_append,List.length_cons] at length
    cases length
  fresh _ below := absurd below (Nat.not_lt_zero _)
  past _ here := absurd here List.not_mem_nil
  recorded _ _ here := absurd here List.not_mem_nil
  held _ below := absurd below (Nat.not_lt_zero _)
  ordered _ _ _ below := absurd below (Nat.not_lt_zero _)
  ahead _ _ here := absurd here List.not_mem_nil
  named _ _ here := absurd here List.not_mem_nil
  trailing before dsoHandle ran split := by
    have length := congrArg List.length split
    rw [List.length_append,List.length_cons] at length
    cases length

-- An event that is no call ends no segment of calls but the empty one.
theorem quiet_trailing (split : log ++ [event] = before ++ .entered dsoHandle :: List.map Event.called ran)
    (quiet : ∀ number,event ≠ .called number) (start : ∀ dsoHandle,event ≠ .entered dsoHandle) : False := by
  rcases segment_cases split with ⟨_,entered,_⟩ | ⟨_,number,_,called,_⟩
  · exact start _ entered
  · exact quiet number called

theorem cxaAtexit_sound (sound : Sound m) (admitted : Admits m (.register entry)) : Sound (cxaAtexit m entry).2 := by
  unfold cxaAtexit
  by_cases full : m.atExitEntryCount = maxAtExitEntries
  · rw [if_pos full]
    exact sound
  rw [if_neg full]
  have kept : ∀ i < m.atExitEntryCount,put m.atExitEntries m.atExitEntryCount entry i = m.atExitEntries i ∧
      put m.numbers m.atExitEntryCount m.made i = m.numbers i := fun i below =>
    ⟨put_other (Nat.ne_of_lt below),put_other (Nat.ne_of_lt below)⟩
  have member (e : Event) : e ∈ m.log ++ [.registered m.made entry] ↔ e ∈ m.log ∨ e = .registered m.made entry := by
    rw [List.mem_append,List.mem_singleton]
  refine ⟨orderly_snoc sound.toOrderly nofun nofun fun _ _ _ _ _ => nofun,?_,?_,?_,?_,?_,?_,?_,?_⟩
  · intro i below real
    dsimp only at below real ⊢
    intro called
    have called := ((member _).mp called).resolve_right nofun
    rcases Nat.lt_succ_iff_lt_or_eq.mp below with old | rfl
    · rw [(kept i old).1] at real
      rw [(kept i old).2] at called
      exact sound.fresh i old real called
    · rw [put_same] at called
      exact Nat.lt_irrefl _ (sound.past _ called)
  · intro number called
    exact Nat.lt_succ_of_lt (sound.past number (((member _).mp called).resolve_right nofun))
  · intro number e registered
    dsimp only
    rcases (member _).mp registered with old | new
    · obtain ⟨past,where_⟩ := sound.recorded number e old
      refine ⟨Nat.lt_succ_of_lt past,fun real => ?_⟩
      rcases where_ real with called | ⟨i,below,same,slot⟩
      · exact .inl ((member _).mpr (.inl called))
      · exact .inr ⟨i,Nat.lt_succ_of_lt below,(kept i below).2.trans same,(kept i below).1.trans slot⟩
    · cases new
      exact ⟨Nat.lt_succ_self _,fun _ => .inr ⟨m.atExitEntryCount,Nat.lt_succ_self _,put_same,put_same⟩⟩
  · intro i below
    dsimp only at below ⊢
    rcases Nat.lt_succ_iff_lt_or_eq.mp below with old | rfl
    · rw [(kept i old).2]
      exact Nat.lt_succ_of_lt (sound.held i old)
    · rw [put_same]
      exact Nat.lt_succ_self _
  · intro i j lower below
    dsimp only at below ⊢
    rcases Nat.lt_succ_iff_lt_or_eq.mp below with old | rfl
    · rw [(kept i (Nat.lt_trans lower old)).2,(kept j old).2]
      exact sound.ordered i j lower old
    · rw [(kept i lower).2,put_same]
      exact sound.held i lower
  · intro dsoHandle position walk i below real mine
    dsimp only at walk below real mine
    rcases Nat.lt_succ_iff_lt_or_eq.mp below with old | rfl
    · rw [(kept i old).1] at real mine
      exact sound.ahead dsoHandle position walk i old real mine
    · rw [put_same] at real mine
      subst mine
      exact (admitted real position walk).resolve_right full
  · exact sound.named
  · intro before dsoHandle ran split
    exact (quiet_trailing split nofun nofun).elim

theorem cxaFinalize_sound (sound : Sound m) (dsoHandle : Nat) : Sound (cxaFinalize m dsoHandle) := by
  have member (e : Event) (other : e ≠ .entered dsoHandle) : e ∈ m.log ++ [.entered dsoHandle] ↔ e ∈ m.log := by
    rw [List.mem_append,List.mem_singleton]
    exact or_iff_left other
  refine ⟨orderly_snoc sound.toOrderly nofun nofun fun _ _ _ _ _ => nofun,?_,?_,?_,?_,?_,?_,?_,?_⟩
  · intro i below real
    show Event.called _ ∉ m.log ++ [_]
    rw [member (.called _) nofun]
    exact sound.fresh i below real
  · intro number called
    exact sound.past number ((member (.called number) nofun).mp called)
  · intro number entry registered
    obtain ⟨past,where_⟩ := sound.recorded number entry ((member (.registered number entry) nofun).mp registered)
    exact ⟨past,fun real => (where_ real).imp_left (member (.called number) nofun).mpr⟩
  · exact sound.held
  · exact sound.ordered
  · intro other position walk i below real mine
    rcases List.mem_cons.mp walk with new | old
    · split at new
      · cases new
      · cases new
        exact below
    · exact sound.ahead other position old i below real mine
  · intro other position walk
    rcases List.mem_cons.mp walk with new | old
    · split at new
      · cases new
      · cases new
        assumption
    · exact sound.named other position old
  · intro before other ran split
    rcases segment_cases split with ⟨rfl,_,_⟩ | ⟨_,_,_,called,_⟩
    · refine ⟨_,_,rfl,?_,fun _ _ _ here => absurd here List.not_mem_nil⟩
      split
      · exact Nat.le_refl _
      · exact Nat.le_refl _
    · cases called

theorem leave_sound (sound : Sound m) (outside : Bool) : Sound { m with outside := outside } where
  toOrderly := sound.toOrderly
  fresh := sound.fresh
  past := sound.past
  recorded := sound.recorded
  held := sound.held
  ordered := sound.ordered
  ahead := sound.ahead
  named := sound.named
  trailing before dsoHandle ran split := by
    obtain ⟨walk,rest,walks,below,earlier⟩ := sound.trailing before dsoHandle ran split
    exact ⟨walk,rest,walks,below,earlier⟩

-- A walk ends when it has come by every slot with an entry of its object.
theorem comeBack_sound (sound : Sound m) (walks : m.walks = walk :: rest) (dsoHandle : Nat)
    (none : ∀ i < m.atExitEntryCount,(m.atExitEntries i).destructor ≠ 0 →
      ¬(dsoHandle = 0 ∨ (m.atExitEntries i).dsoHandle = dsoHandle)) : Sound (comeBack m rest dsoHandle) := by
  have member (e : Event) (other : e ≠ .returned dsoHandle) : e ∈ m.log ++ [.returned dsoHandle] ↔ e ∈ m.log := by
    rw [List.mem_append,List.mem_singleton]
    exact or_iff_left other
  refine ⟨orderly_snoc sound.toOrderly nofun ?_ fun _ _ _ _ _ => nofun,?_,?_,?_,?_,?_,?_,?_,?_⟩
  · rintro _ ⟨⟩ number entry registered real mine
    rcases (sound.recorded number entry registered).2 real with called | ⟨i,below,_,rfl⟩
    · exact called
    · exact (none i below real mine).elim
  · intro i below real
    show Event.called _ ∉ m.log ++ [_]
    rw [member (.called _) nofun]
    exact sound.fresh i below real
  · intro number called
    exact sound.past number ((member (.called number) nofun).mp called)
  · intro number entry registered
    obtain ⟨past,where_⟩ := sound.recorded number entry ((member (.registered number entry) nofun).mp registered)
    exact ⟨past,fun real => (where_ real).imp_left (member (.called number) nofun).mpr⟩
  · exact sound.held
  · exact sound.ordered
  · intro other position here i below real mine
    exact sound.ahead other position (by rw [walks]; exact List.mem_cons_of_mem _ here) i below real mine
  · intro other position here
    exact sound.named other position (by rw [walks]; exact List.mem_cons_of_mem _ here)
  · intro before other ran split
    exact (quiet_trailing split nofun nofun).elim

theorem popTurn_sound (sound : Sound m) (walks : m.walks = .popping :: rest) : Sound (popTurn m rest) := by
  unfold popTurn
  by_cases empty : m.atExitEntryCount = 0
  · rw [if_pos empty]
    exact comeBack_sound sound walks 0 fun i below => by omega
  rw [if_neg empty]
  dsimp only
  generalize top : m.atExitEntryCount - 1 = last
  have inside : last < m.atExitEntryCount := by omega
  have lower : ∀ i,i < last → i < m.atExitEntryCount := fun i below => Nat.lt_trans below inside
  by_cases real : (m.atExitEntries last).destructor ≠ 0
  · rw [if_pos real]
    have unlogged := sound.fresh last inside real
    have member (e : Event) : e ∈ m.log ++ [.called (m.numbers last)] ↔ e ∈ m.log ∨ e = .called (m.numbers last) := by
      rw [List.mem_append,List.mem_singleton]
    refine ⟨orderly_snoc sound.toOrderly (fun number same => by cases same; exact unlogged) nofun ?_,?_,?_,?_,?_,?_,?_,?_,?_⟩
    · rintro before dsoHandle ran number split ⟨⟩
      obtain ⟨walk,_,here,_,earlier⟩ := sound.trailing before dsoHandle ran split
      rw [walks] at here
      cases here
      exact earlier last inside
    · intro i below slot
      rw [member]
      rintro (called | same)
      · exact sound.fresh i (lower i below) slot called
      · exact Nat.ne_of_lt (sound.ordered i last below inside) (Event.called.inj same)
    · intro number called
      rcases (member _).mp called with old | new
      · exact sound.past number old
      · rw [Event.called.inj new]
        exact sound.held last inside
    · intro number entry registered
      obtain ⟨past,where_⟩ := sound.recorded number entry (((member _).mp registered).resolve_right nofun)
      refine ⟨past,fun slot => ?_⟩
      rcases where_ slot with called | ⟨i,below,same,held⟩
      · exact .inl ((member _).mpr (.inl called))
      · by_cases here : i = last
        · subst here
          exact .inl ((member _).mpr (.inr (congrArg _ same.symm)))
        · exact .inr ⟨i,by dsimp only; omega,same,held⟩
    · exact fun i below => sound.held i (lower i below)
    · exact fun i j less below => sound.ordered i j less (lower j below)
    · exact fun dsoHandle position walk i below => sound.ahead dsoHandle position walk i (lower i below)
    · exact sound.named
    · intro before dsoHandle ran split
      rcases segment_cases split with ⟨_,entered,_⟩ | ⟨ran',number,rfl,called,earlier⟩
      · cases entered
      · cases called
        obtain ⟨walk,rest',here,_,before'⟩ := sound.trailing before dsoHandle ran' earlier
        rw [walks] at here
        cases here
        refine ⟨.popping,rest,walks,Nat.le_refl _,fun i below n present => ?_⟩
        rcases List.mem_append.mp present with old | new
        · exact before' i (lower i below) n old
        · rw [List.mem_singleton.mp new]
          exact sound.ordered i last below inside
  · rw [if_neg real]
    exact
      { toOrderly := sound.toOrderly
        fresh := fun i below => sound.fresh i (lower i below)
        past := sound.past
        recorded := fun number entry registered => by
          obtain ⟨past,where_⟩ := sound.recorded number entry registered
          refine ⟨past,fun slot => ?_⟩
          rcases where_ slot with called | ⟨i,below,same,rfl⟩
          · exact .inl called
          · have other : i ≠ last := by
              rintro rfl
              exact real slot
            exact .inr ⟨i,by dsimp only; omega,same,rfl⟩
        held := fun i below => sound.held i (lower i below)
        ordered := fun i j less below => sound.ordered i j less (lower j below)
        ahead := fun dsoHandle position walk i below => sound.ahead dsoHandle position walk i (lower i below)
        named := sound.named
        trailing := fun before dsoHandle ran split => by
          obtain ⟨walk,rest',here,_,earlier⟩ := sound.trailing before dsoHandle ran split
          rw [walks] at here
          cases here
          exact ⟨.popping,rest,walks,Nat.le_refl _,fun i below => earlier i (lower i below)⟩ }

theorem markTurn_sound (sound : Sound m) (walks : m.walks = .marking dsoHandle position :: rest)
    (admitted : Admits m .turn) : Sound (markTurn m rest dsoHandle position) := by
  cases position with
  | zero =>
      refine comeBack_sound sound walks dsoHandle fun i below real mine => ?_
      rcases mine with zero | mine
      · exact sound.named dsoHandle 0 (by rw [walks]; exact List.mem_cons_self) zero
      · exact absurd (sound.ahead dsoHandle 0 (by rw [walks]; exact List.mem_cons_self) i below real mine) (Nat.not_lt_zero i)
  | succ position =>
      rw [markTurn]
      have here : .marking dsoHandle (position + 1) ∈ m.walks := by
        rw [walks]
        exact List.mem_cons_self
      have tail : ∀ walk ∈ rest,walk ∈ m.walks := fun walk present => by
        rw [walks]
        exact List.mem_cons_of_mem _ present
      have shorter (place : Nat) : ∀ other here,.marking other here ∈ Walk.marking dsoHandle place :: rest → other ≠ 0 := by
        intro other there walk
        rcases List.mem_cons.mp walk with new | old
        · cases new
          exact sound.named dsoHandle (position + 1) here
        · exact sound.named other there (tail _ old)
      by_cases pass : (m.atExitEntries position).destructor = 0 ∨ (m.atExitEntries position).dsoHandle ≠ dsoHandle
      · rw [if_pos pass]
        refine ⟨sound.toOrderly,sound.fresh,sound.past,sound.recorded,sound.held,sound.ordered,?_,shorter position,?_⟩
        · intro other place walk i below real mine
          rcases List.mem_cons.mp walk with new | old
          · cases new
            have limit := sound.ahead dsoHandle (position + 1) here i below real mine
            have other : i ≠ position := by
              rintro rfl
              rcases pass with none | foreign
              · exact real none
              · exact foreign mine
            omega
          · exact sound.ahead other place (tail _ old) i below real mine
        · intro before other ran split
          obtain ⟨walk,_,same,low,earlier⟩ := sound.trailing before other ran split
          rw [walks] at same
          cases same
          exact ⟨.marking dsoHandle position,rest,rfl,Nat.le_of_succ_le low,fun i below => earlier i (Nat.lt_succ_of_lt below)⟩
      · rw [if_neg pass]
        obtain ⟨real,mine⟩ := not_or.mp pass
        have mine := Decidable.of_not_not mine
        have inside : position < m.atExitEntryCount := admitted dsoHandle position (by rw [walks]; rfl) real mine
        have unlogged := sound.fresh position inside real
        have member (e : Event) : e ∈ m.log ++ [.called (m.numbers position)] ↔
            e ∈ m.log ∨ e = .called (m.numbers position) := by rw [List.mem_append,List.mem_singleton]
        -- what the marked table still holds, it held before
        have marked : ∀ i,(put m.atExitEntries position { m.atExitEntries position with destructor := 0 } i).destructor ≠ 0 →
            i ≠ position ∧ put m.atExitEntries position { m.atExitEntries position with destructor := 0 } i = m.atExitEntries i := by
          intro i slot
          have other : i ≠ position := by
            rintro rfl
            rw [put_same] at slot
            exact slot rfl
          exact ⟨other,put_other other⟩
        have distinct : ∀ i < m.atExitEntryCount,i ≠ position → m.numbers i ≠ m.numbers position := by
          intro i below other
          rcases Nat.lt_or_gt_of_ne other with less | more
          · exact Nat.ne_of_lt (sound.ordered i position less inside)
          · exact Nat.ne_of_gt (sound.ordered position i more below)
        refine ⟨orderly_snoc sound.toOrderly (fun number same => by cases same; exact unlogged) nofun ?_,?_,?_,?_,
          sound.held,sound.ordered,?_,shorter position,?_⟩
        · rintro before other ran number split ⟨⟩
          obtain ⟨walk,_,same,_,earlier⟩ := sound.trailing before other ran split
          rw [walks] at same
          cases same
          exact earlier position (Nat.lt_succ_self _)
        · intro i below slot
          dsimp only at slot
          obtain ⟨other,same⟩ := marked i slot
          rw [same] at slot
          rw [member]
          rintro (called | equal)
          · exact sound.fresh i below slot called
          · exact distinct i below other (Event.called.inj equal)
        · intro number called
          rcases (member _).mp called with old | new
          · exact sound.past number old
          · rw [Event.called.inj new]
            exact sound.held position inside
        · intro number entry registered
          obtain ⟨past,where_⟩ := sound.recorded number entry (((member _).mp registered).resolve_right nofun)
          refine ⟨past,fun slot => ?_⟩
          rcases where_ slot with called | ⟨i,below,same,held⟩
          · exact .inl ((member _).mpr (.inl called))
          · by_cases now : i = position
            · subst now
              exact .inl ((member _).mpr (.inr (congrArg _ same.symm)))
            · exact .inr ⟨i,below,same,(put_other now).trans held⟩
        · intro other place walk i below slot own
          dsimp only at slot own
          obtain ⟨now,same⟩ := marked i slot
          rw [same] at slot own
          rcases List.mem_cons.mp walk with new | old
          · cases new
            have limit := sound.ahead dsoHandle (position + 1) here i below slot own
            omega
          · exact sound.ahead other place (tail _ old) i below slot own
        · intro before other ran split
          rcases segment_cases split with ⟨_,entered,_⟩ | ⟨ran',number,rfl,called,earlier⟩
          · cases entered
          · cases called
            obtain ⟨walk,_,same,low,before'⟩ := sound.trailing before other ran' earlier
            rw [walks] at same
            cases same
            refine ⟨.marking dsoHandle position,rest,rfl,Nat.le_of_succ_le low,fun i below n present => ?_⟩
            rcases List.mem_append.mp present with old | new
            · exact before' i (Nat.lt_succ_of_lt below) n old
            · rw [List.mem_singleton.mp new]
              exact sound.ordered i position below inside

theorem step_sound (sound : Sound m) (admitted : Admits m call) (step : Step m call n) : Sound n := by
  unfold Step next at step
  cases call with
  | register entry =>
      dsimp only at step
      split at step
      · cases step
        exact cxaAtexit_sound sound admitted
      · cases step
  | finalize dsoHandle =>
      dsimp only at step
      split at step
      · cases step
        exact cxaFinalize_sound sound dsoHandle
      · cases step
  | leave =>
      dsimp only at step
      split at step
      · cases step
        exact leave_sound sound false
      · cases step
  | turn =>
      dsimp only at step
      split at step
      · cases step
      · cases walks : m.walks with
        | nil =>
            rw [walks] at step
            cases step
        | cons walk rest =>
            rw [walks] at step
            cases walk with
            | popping =>
                cases step
                exact popTurn_sound sound walks
            | marking dsoHandle position =>
                cases step
                exact markTurn_sound sound walks admitted

end Steps

theorem exit_destructors_run_once (run : Run Step Admits booted calls m) : Orderly m.log :=
  (run.keeps Sound (fun _ _ _ sound admitted step => step_sound sound admitted step) booted_sound).toOrderly

-- Two registrations for one object, finalized for that object.
theorem exit_destructors_run_once_two : Orderly
    [.registered 0 ⟨1,2,7⟩,.registered 1 ⟨3,4,7⟩,.entered 7,.called 1,.called 0,.returned 7] := by
  have first : Run Step Admits booted [.register ⟨1,2,7⟩,.register ⟨3,4,7⟩,.finalize 7] _ :=
    .cons (fun _ _ here => absurd here List.not_mem_nil) rfl (.cons (fun _ _ here => absurd here List.not_mem_nil) rfl
      (.cons trivial rfl .nil))
  have second : Run Step Admits (cxaFinalize (cxaAtexit (cxaAtexit booted ⟨1,2,7⟩).2 ⟨3,4,7⟩).2 7)
      [.turn,.leave,.turn,.leave,.turn] _ :=
    .cons (fun _ i here _ _ => by cases here; decide) rfl (.cons trivial rfl
      (.cons (fun _ i here _ _ => by cases here; decide) rfl (.cons trivial rfl
        (.cons (fun _ i here => by cases here) rfl .nil))))
  exact exit_destructors_run_once (first.append second)

-- A destructor registers for the object that is being finalized: the walk is past the new
-- slot. A destructor finalizes everything: the slot below the one the walk stands at is
-- popped and called, and the walk calls it again.
theorem destructors_missed_and_repeated : ¬(∀ calls m,Run Step (fun _ _ => True) booted calls m → Orderly m.log) ∧
    ∃ calls m,Run Step (fun _ _ => True) booted calls m ∧ m.log.count (.called 0) = 2 := by
  have reached (calls : List Call) (log : List Event)
      (followed : (follow next (fun _ _ => true) booted calls).map Machine.log = some log) :
      ∃ m,Run Step (fun _ _ => True) booted calls m ∧ m.log = log := by
    obtain ⟨m,last,same⟩ := Option.map_eq_some_iff.mp followed
    exact ⟨m,follow_run _ _ (fun _ _ _ => id) (fun _ _ _ => trivial) last,same⟩
  refine ⟨fun every => ?_,?_⟩
  · obtain ⟨m,run,log⟩ := reached [.register ⟨1,2,7⟩,.finalize 7,.turn,.register ⟨3,4,7⟩,.leave,.turn]
      [.registered 0 ⟨1,2,7⟩,.entered 7,.called 0,.registered 1 ⟨3,4,7⟩,.returned 7] rfl
    have called := (every _ m run).complete [.registered 0 ⟨1,2,7⟩,.entered 7,.called 0,.registered 1 ⟨3,4,7⟩] 7 [] log
      1 ⟨3,4,7⟩ (by decide) (by decide) (.inr rfl)
    exact absurd called (by decide)
  · obtain ⟨m,run,log⟩ := reached [.register ⟨1,2,7⟩,.register ⟨3,4,7⟩,.finalize 7,.turn,.finalize 0,.turn,.turn,
      .leave,.turn,.leave,.turn]
      [.registered 0 ⟨1,2,7⟩,.registered 1 ⟨3,4,7⟩,.entered 7,.called 1,.entered 0,.called 0,.returned 0,.called 0] rfl
    refine ⟨_,m,run,?_⟩
    rw [log]
    decide

end GlobalDestructors
