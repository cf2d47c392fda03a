import Gameos.ArrayRefinement

namespace ArrayLifetimes
open Function TransitionRuns

section Represents
variable {T : Type} {K : Element} {heap after : Heap T} {objects : Nat → Option Object} {m : Lists T}

-- The arrays are the lists: each owns its elements alone, and all memory in use
-- is an array's.
structure Represents (K : Element) (heap : Heap T) (objects : Nat → Option Object) (m : Lists T) : Prop where
  null : heap 0 = none
  holds : ∀ a o, objects a = some o → ∃ values, m a = some values ∧ Holds K heap o values
  absent : ∀ a, objects a = none → m a = none
  apart : ∀ a a' o o', objects a = some o → objects a' = some o' → o.data = o'.data → o.data ≠ 0 → a = a'
  owned : ∀ b block, heap b = some block → ∃ a o, objects a = some o ∧ o.data = b

theorem initial_represents : Represents K (fun _ => none : Heap T) (fun _ => none) (fun _ => none) :=
  ⟨rfl,by simp,fun _ _ => rfl,by simp,by simp⟩

def named (objects : Nat → Option Object) (a : Nat) : Object := (objects a).getD nobody

theorem named_some (here : objects a = some o) : named objects a = o := by rw [named,here]; rfl
theorem named_none (here : objects a = none) : named objects a = nobody := by rw [named,here]; rfl

theorem Holds.frame {middle : Heap T} (holds : Holds K heap o values) (null : middle 0 = none)
    (same : o.data ≠ 0 → middle o.data = heap o.data) : Holds K middle o values := by
  cases holds with
  | empty => exact .empty null
  | storage _ live here within positive word => exact .storage null live ((same live).trans here) within positive word

theorem Holds.buffer (holds : Holds K heap o values) (nonnull : o.data ≠ 0) : ∃ block, heap o.data = some block := by
  cases holds with
  | empty => exact absurd rfl nonnull
  | storage _ _ here => exact ⟨_,here⟩

-- One array makes way for another under the same name, or for none.
theorem Represents.replace (made : Option Object) (rep : Represents K heap objects m)
    (turns : Turns K heap (named objects a) values (made.getD nobody,after)) :
    Represents K after (update objects a made) (update m a (made.map fun _ => values)) := by
  have mine : ∀ {a' o}, objects a' = some o → o.data = (named objects a).data → o.data ≠ 0 → a' = a := by
    intro a' o here same nonnull
    cases own : objects a with
    | none =>
      rw [named_none own] at same
      exact absurd same nonnull
    | some o' =>
      rw [named_some own] at same
      exact rep.apart a' a o o' here own same nonnull
  have foreign : ∀ {a' o}, a' ≠ a → objects a' = some o → o.data ≠ 0 →
      o.data ≠ (named objects a).data ∧ o.data ≠ (made.getD nobody).data := by
    intro a' o other here nonnull
    have old : o.data ≠ (named objects a).data := fun same => other (mine here same nonnull)
    refine ⟨old,fun same => ?_⟩
    obtain ⟨values',_,holds⟩ := rep.holds a' o here
    obtain ⟨block,live⟩ := holds.buffer nonnull
    have unused := turns.fresh (by rw [← same]; exact old)
    rw [← same,live] at unused
    cases unused
  refine ⟨turns.null,?_,?_,?_,?_⟩
  · intro a' o here
    by_cases same : a' = a
    · subst same
      rw [update_self] at here ⊢
      subst here
      exact ⟨values,rfl,turns.holds⟩
    · rw [update_of_ne same] at here ⊢
      obtain ⟨values',means,holds⟩ := rep.holds a' o here
      exact ⟨values',means,holds.frame turns.null fun nonnull =>
        turns.others _ (foreign same here nonnull).1 (foreign same here nonnull).2⟩
  · intro a' gone
    by_cases same : a' = a
    · subst same
      rw [update_self] at gone ⊢
      rw [gone]
      rfl
    · rw [update_of_ne same] at gone ⊢
      exact rep.absent a' gone
  · intro a₁ a₂ o₁ o₂ here₁ here₂ data nonnull
    by_cases same₁ : a₁ = a
    · by_cases same₂ : a₂ = a
      · rw [same₁,same₂]
      · subst same₁
        rw [update_of_ne same₂] at here₂
        rw [update_self] at here₁
        subst here₁
        exact absurd data.symm (foreign same₂ here₂ (data ▸ nonnull)).2
    · rw [update_of_ne same₁] at here₁
      by_cases same₂ : a₂ = a
      · subst same₂
        rw [update_self] at here₂
        subst here₂
        exact absurd data (foreign same₁ here₁ nonnull).2
      · rw [update_of_ne same₂] at here₂
        exact rep.apart a₁ a₂ o₁ o₂ here₁ here₂ data nonnull
  · intro b block live
    by_cases new : b = (made.getD nobody).data
    · cases made with
      | none =>
        have null := turns.null
        rw [new] at live
        exact absurd (live.symm.trans null) (by simp)
      | some o => exact ⟨a,o,update_self ..,new.symm⟩
    · by_cases old : b = (named objects a).data
      · rw [old] at live new
        exact absurd (live.symm.trans (turns.freed (Ne.symm new))) (by simp)
      · have same : after b = heap b := turns.others b old new
        rw [same] at live
        obtain ⟨a',o,here,data⟩ := rep.owned b block live
        have other : a' ≠ a := by
          rintro rfl
          rw [named_some here] at old
          exact old data.symm
        exact ⟨a',o,by rw [update_of_ne other]; exact here,data⟩

-- An array changes its name and leaves an empty one behind.
theorem Represents.move (rep : Represents K heap objects m) (gone : objects a = none) (here : objects source = some o)
    (means : m source = some values) :
    Represents K heap (update (update objects a (some o)) source (some movedFrom))
      (update (update m a (some values)) source (some [])) := by
  have apart : a ≠ source := by
    rintro rfl
    rw [gone] at here
    cases here
  have holds : Holds K heap o values := by
    obtain ⟨values',means',holds⟩ := rep.holds source o here
    rw [means] at means'
    cases means'
    exact holds
  -- who has a buffer now had it before, the source's under the new name
  have before : ∀ {a' o'}, update (update objects a (some o)) source (some movedFrom) a' = some o' → o'.data ≠ 0 →
      objects (if a' = a then source else a') = some o' := by
    intro a' o' now nonnull
    by_cases left : a' = source
    · subst left
      rw [update_self] at now
      cases now
      exact absurd rfl nonnull
    · rw [update_of_ne left] at now
      by_cases same : a' = a
      · subst same
        rw [update_self] at now
        rw [if_pos rfl,here,now]
      · rw [update_of_ne same] at now
        rw [if_neg same,now]
  refine ⟨rep.null,?_,?_,?_,?_⟩
  · intro a' o' now
    by_cases left : a' = source
    · subst left
      rw [update_self] at now ⊢
      cases now
      exact ⟨[],rfl,.empty rep.null⟩
    · rw [update_of_ne left] at now ⊢
      by_cases same : a' = a
      · subst same
        rw [update_self] at now ⊢
        cases now
        exact ⟨values,rfl,holds⟩
      · rw [update_of_ne same] at now ⊢
        exact rep.holds a' o' now
  · intro a' absent
    by_cases left : a' = source
    · subst left
      rw [update_self] at absent
      cases absent
    · rw [update_of_ne left] at absent ⊢
      by_cases same : a' = a
      · subst same
        rw [update_self] at absent
        cases absent
      · rw [update_of_ne same] at absent ⊢
        exact rep.absent a' absent
  · intro a₁ a₂ o₁ o₂ here₁ here₂ data nonnull
    have same := rep.apart _ _ o₁ o₂ (before here₁ nonnull) (before here₂ (data ▸ nonnull)) data nonnull
    have kept₁ : a₁ ≠ source := by
      rintro rfl
      rw [update_self] at here₁
      cases here₁
      exact nonnull rfl
    have kept₂ : a₂ ≠ source := by
      rintro rfl
      rw [update_self] at here₂
      cases here₂
      exact nonnull data
    split at same
    · split at same
      · simp only [*]
      · exact absurd same.symm kept₂
    · split at same
      · exact absurd same kept₁
      · exact same
  · intro b block live
    obtain ⟨a',o',was,data⟩ := rep.owned b block live
    by_cases left : a' = source
    · subst left
      rw [here] at was
      cases was
      exact ⟨a,o,by rw [update_of_ne apart,update_self],data⟩
    · have same : a' ≠ a := by
        rintro rfl
        rw [gone] at was
        cases was
      exact ⟨a',o',by rw [update_of_ne left,update_of_ne same]; exact was,data⟩

theorem Represents.held (rep : Represents K heap objects m) (here : objects a = some o) (means : m a = some values) :
    Holds K heap o values := by
  obtain ⟨values',means',holds⟩ := rep.holds a o here
  rw [means] at means'
  cases means'
  exact holds

theorem Represents.meant (rep : Represents K heap objects m) (here : objects a = some o) : ∃ values, m a = some values :=
  let ⟨values,means,_⟩ := rep.holds a o here
  ⟨values,means⟩

-- An array under a name that was free, or instead of the one of that name.
theorem Represents.become {s : State T} {made : Object × Heap T} (rep : Represents K s.heap s.objects m)
    (turns : Turns K s.heap (named s.objects a) values made) :
    Represents K (s.become a made).heap (s.become a made).objects (update m a (some values)) :=
  rep.replace (some made.1) turns

end Represents

section Calls
variable {T : Type} {K : Element} {A : Allocators T} {s : State T} {m : Lists T}

-- The allocator a call takes storage from, and for how many elements.
def supplier (s : State T) : Call T → Option Nat
  | .construct _ _ allocator | .construct_filled _ _ _ allocator => some (resolve_allocator s.context allocator)
  | .construct_copy _ array | .assign_copy _ array | .reserve array _ | .push_back array _ | .extend array _ =>
    some (resolve_allocator s.context (named s.objects array).allocator)
  | _ => none

def demand (s : State T) (m : Lists T) : Call T → Int
  | .construct _ initial_capacity _ => initial_capacity
  | .construct_filled _ initial_size _ _ => initial_size
  | .construct_copy _ source | .assign_copy _ source => (named s.objects source).capacity
  | .reserve _ min_capacity => min_capacity
  | .push_back array _ => (named s.objects array).size + 1
  | .extend array source => (named s.objects array).size + ((source.list m).getD []).length
  | _ => 0

-- extend is not given a later part of the array's own elements where it grows.
def Steady (s : State T) : Call T → Prop
  | .extend array (.part other index count) => other = array → index = 0 ∨
    (named s.objects array).size + (slice (T := T) index count (named s.objects array)).size ≤
      (named s.objects array).capacity
  | _ => True

-- How a call ends: as its meaning on lists says, with an assertion where it has
-- none, or with an excuse, if it takes storage. It never faults.
inductive Meets (K : Element) (A : Allocators T) (s : State T) (m : Lists T) (call : Call T) : Outcome T → Prop where
  | done : meaning m call = some (n,result) → Represents K t.heap t.objects n → Meets K A s m call (.ok (t,result))
  | rejected : meaning m call = none → (∀ fault, reason ≠ .fault fault) → Meets K A s m call (.error reason)
  | excused : supplier s call = some allocator → Excuse K A allocator (demand s m call) reason → Meets K A s m call (.error reason)

theorem meets_silent (values : List T) (rep : Represents K s.heap s.objects m) {made : Except Stop (Object × Heap T)}
    (supplied : supplier s call = some allocator)
    (ends : Ends (Excuse K A allocator (demand s m call)) (Turns K s.heap (named s.objects a) values) made)
    (means : meaning m call = some (update m a (some values),none)) : Meets K A s m call (silent s a made) := by
  cases ends with
  | ok turns => exact .done means (rep.become turns)
  | stop excuse => exact .excused supplied excuse

theorem undeclared_meets {act : Except Stop (State T × Option T)} (rep : Represents K s.heap s.objects m)
    (none_ : ∀ values, m a = some values → meaning m call = none)
    (free : s.objects a = none → m a = none → Meets K A s m call act) : Meets K A s m call (undeclared s a act) := by
  cases here : s.objects a with
  | none =>
    rw [undeclared,here]
    exact free here (rep.absent a here)
  | some o =>
    rw [undeclared,here]
    obtain ⟨values,means⟩ := rep.meant here
    exact .rejected (none_ values means) (by simp)

theorem declared_meets {act : Object → Outcome T} (rep : Represents K s.heap s.objects m)
    (none_ : m a = none → meaning m call = none)
    (live : ∀ o values, s.objects a = some o → m a = some values → Holds K s.heap o values → Meets K A s m call (act o)) :
    Meets K A s m call (declared s a act) := by
  cases here : s.objects a with
  | none =>
    rw [declared,here]
    exact .rejected (none_ (rep.absent a here)) (by simp)
  | some o =>
    rw [declared,here]
    obtain ⟨values,means,holds⟩ := rep.holds a o here
    exact live o values here means holds

theorem named_free (free : s.objects a = none) (turns : Turns K heap nobody values made) :
    Turns K heap (named s.objects a) values made := by
  rwa [named_none free]

-- A negative capacity is refused, or overflows, before any storage is asked for.
theorem construct_negative (context allocator : Option Nat) (heap : Heap T) (negative : initial_capacity < 0) :
    ∃ reason, construct K A context initial_capacity allocator heap = .error reason ∧ ∀ fault, reason ≠ .fault fault := by
  have size := size_positive K
  have below : K.size * initial_capacity < 0 := by nlinarith
  rw [construct,if_neg (show ¬initial_capacity = 0 by omega),allocate_storage,if_neg (show ¬initial_capacity = 0 by omega)]
  split
  · exact ⟨_,rfl,by simp⟩
  · exact ⟨_,rfl,by simp⟩

theorem fresh_taken (means : m a = some values) : m.fresh a list = none := by
  rw [Lists.fresh,means]
  rfl

theorem fresh_free (free : m a = none) : m.fresh a list = some (update m a (some list),none) := by
  rw [Lists.fresh,free]
  rfl

theorem meets_construct (rep : Represents K s.heap s.objects m) (a : Nat) (initial_capacity : Int) (allocator : Option Nat) :
    Meets K A s m (.construct a initial_capacity allocator) (execute K A s (.construct a initial_capacity allocator)) := by
  refine undeclared_meets rep (fun values means => ?_) fun free absent => ?_
  · rw [meaning,fresh_taken means,ite_self]
  by_cases negative : initial_capacity < 0
  · obtain ⟨reason,stopped,unfaulted⟩ := construct_negative (K := K) (A := A) s.context allocator s.heap negative
    rw [silent,stopped]
    exact .rejected (if_pos negative) unfaulted
  · have nonneg : 0 ≤ initial_capacity := by omega
    have made := construct_turns K A s.context rep.null allocator nonneg
    refine meets_silent [] rep rfl ?_ (by rw [meaning,if_neg negative,fresh_free absent])
    exact made.mono fun made turns => named_free free turns

theorem meets_construct_filled (rep : Represents K s.heap s.objects m) (a : Nat) (initial_size : Int) (value : T)
    (allocator : Option Nat) : Meets K A s m (.construct_filled a initial_size value allocator)
      (execute K A s (.construct_filled a initial_size value allocator)) := by
  refine undeclared_meets rep (fun values means => ?_) fun free absent => ?_
  · rw [meaning,fresh_taken means,ite_self]
  by_cases negative : initial_size < 0
  · obtain ⟨reason,stopped,unfaulted⟩ := construct_negative (K := K) (A := A) s.context allocator s.heap negative
    rw [silent,construct_filled,stopped]
    exact .rejected (if_pos negative) unfaulted
  · have nonneg : 0 ≤ initial_size := by omega
    have made := construct_filled_turns K A s.context rep.null allocator nonneg value
    refine meets_silent (List.replicate initial_size.toNat value) rep rfl ?_ (by rw [meaning,if_neg negative,fresh_free absent])
    exact made.mono fun made turns => named_free free turns

theorem meets_construct_copy (rep : Represents K s.heap s.objects m) (a source : Nat) :
    Meets K A s m (.construct_copy a source) (execute K A s (.construct_copy a source)) := by
  refine undeclared_meets rep (fun values means => ?_) fun free absent => ?_
  · rw [meaning]
    cases m source with
    | none => rfl
    | some elements => exact fresh_taken means
  refine declared_meets rep (fun missing => by rw [meaning,missing]; rfl) fun o values here means holds => ?_
  have made := construct_copy_turns A s.context holds
  refine meets_silent values rep rfl ?_ (by rw [meaning,means]; exact fresh_free absent)
  rw [demand,named_some here]
  exact made.mono fun made turns => named_free free turns

theorem meets_construct_move (rep : Represents K s.heap s.objects m) (a source : Nat) :
    Meets K A s m (.construct_move a source) (execute K A s (.construct_move a source)) := by
  refine undeclared_meets rep (fun values means => ?_) fun free absent => ?_
  · rw [meaning]
    cases m source with
    | none => rfl
    | some elements =>
      show (m.fresh a elements).map _ = none
      rw [fresh_taken means]
      rfl
  refine declared_meets rep (fun missing => by rw [meaning,missing]; rfl) fun o values here means holds => ?_
  refine .done ?_ (rep.move free here means)
  rw [meaning,means]
  show (m.fresh a values).map _ = _
  rw [fresh_free absent]
  rfl

-- operator= first makes the name a free one.
theorem destructed (rep : Represents K s.heap s.objects m) (here : s.objects a = some o) (holds : Holds K s.heap o values) :
    ∃ after, destruct K s.context o s.heap = .ok after ∧ Represents K after (update s.objects a none) (update m a none) := by
  obtain ⟨after,done,turns⟩ := destruct_turns s.context holds
  rw [← named_some here] at turns
  exact ⟨after,done,rep.replace none turns⟩

theorem meets_assign_copy (rep : Represents K s.heap s.objects m) (a source : Nat) :
    Meets K A s m (.assign_copy a source) (execute K A s (.assign_copy a source)) := by
  refine declared_meets rep (fun missing => by rw [meaning,missing]; rfl) fun this old own means _ => ?_
  refine declared_meets rep (fun missing => by rw [meaning,missing,means]; rfl) fun o values here list holds => ?_
  have meant : meaning m (.assign_copy a source) = some (update m a (some values),none) := by
    rw [meaning,means,list]
    rfl
  by_cases same : a = source
  · subst same
    rw [if_pos rfl]
    rw [← list,update_eq_self] at meant
    exact .done meant rep
  · rw [if_neg same]
    obtain ⟨after,done,gone⟩ := destructed rep own (rep.held own means)
    rw [done]
    have left : Holds K after o values :=
      gone.held (by rw [update_of_ne (Ne.symm same)]; exact here) (by rw [update_of_ne (Ne.symm same)]; exact list)
    have copied := construct_copy_turns A s.context left
    show Meets K A s m (.assign_copy a source) ((construct_copy K A s.context o after).bind _)
    generalize construct_copy K A s.context o after = made at copied
    cases copied with
    | @ok made turns =>
      have fresh : Turns K after (named (update s.objects a none) a) values made := by
        rwa [named_none (update_self ..)]
      have replaced := gone.replace (some made.1) fresh
      rw [update_idem,update_idem] at replaced
      exact .done meant replaced
    | stop excuse =>
      rw [← named_some here] at excuse
      exact .excused rfl excuse

theorem meets_assign_move (rep : Represents K s.heap s.objects m) (a source : Nat) :
    Meets K A s m (.assign_move a source) (execute K A s (.assign_move a source)) := by
  refine declared_meets rep (fun missing => by rw [meaning,missing]; rfl) fun this old own means _ => ?_
  refine declared_meets rep (fun missing => by rw [meaning,missing,means]; rfl) fun o values here list holds => ?_
  by_cases same : a = source
  · rw [if_pos same]
    refine .done ?_ rep
    rw [meaning,means,list]
    exact congrArg some (if_pos same)
  · rw [if_neg same]
    obtain ⟨after,done,gone⟩ := destructed rep own (rep.held own means)
    rw [done]
    have moved := gone.move (update_self ..) (by rw [update_of_ne (Ne.symm same)]; exact here)
      (by rw [update_of_ne (Ne.symm same)]; exact list)
    rw [update_idem,update_idem] at moved
    refine .done ?_ moved
    rw [meaning,means,list]
    exact congrArg some (if_neg same)

theorem meets_destruct (rep : Represents K s.heap s.objects m) (a : Nat) :
    Meets K A s m (.destruct a) (execute K A s (.destruct a)) := by
  refine declared_meets rep (fun missing => by rw [meaning,missing]; rfl) fun o values here means holds => ?_
  obtain ⟨after,done,gone⟩ := destructed rep here holds
  rw [done]
  exact .done (by rw [meaning,means]; rfl) gone

theorem meets_read (rep : Represents K s.heap s.objects m) (a : Nat) (index : Int) :
    Meets K A s m (.read a index) (execute K A s (.read a index)) := by
  refine declared_meets rep (fun missing => by rw [meaning,missing]; rfl) fun o values here means holds => ?_
  have size := holds.size
  have meant : meaning m (.read a index) = if index < 0 then none else (values[index.toNat]?).map fun value => (m,some value) := by
    rw [meaning,means]
    rfl
  by_cases inside : 0 ≤ index ∧ index < o.size
  · obtain ⟨value,nth⟩ := nth_value (show index.toNat < values.length by omega)
    rw [at_index,if_pos inside,holds.load nth]
    rw [if_neg (by omega),nth] at meant
    exact .done meant rep
  · rw [at_index,if_neg inside]
    refine .rejected (meant.trans ?_) (by simp)
    split
    · rfl
    · rw [List.getElem?_eq_none (by omega)]
      rfl

theorem meets_write (rep : Represents K s.heap s.objects m) (a : Nat) (index : Int) (value : T) :
    Meets K A s m (.write a index value) (execute K A s (.write a index value)) := by
  refine declared_meets rep (fun missing => by rw [meaning,missing]; rfl) fun o values here means holds => ?_
  have size := holds.size
  have meant : meaning m (.write a index value) = if 0 ≤ index ∧ index < values.length then
      some (update m a (some (values.set index.toNat value)),none) else none := by
    rw [meaning,means]
    rfl
  by_cases inside : 0 ≤ index ∧ index < o.size
  · obtain ⟨after,written,turns⟩ := write_turns holds (show index.toNat < values.length by omega) value
    rw [at_index,if_pos inside,written]
    rw [if_pos (by omega)] at meant
    rw [← named_some here] at turns
    have replaced := rep.replace (some (named s.objects a)) turns
    have same : update s.objects a (some o) = s.objects := by rw [← here,update_eq_self]
    rw [named_some here,same] at replaced
    exact .done meant replaced
  · rw [at_index,if_neg inside]
    exact .rejected (meant.trans (if_neg (by omega))) (by simp)

theorem meets_reserve (rep : Represents K s.heap s.objects m) (a : Nat) (min_capacity : Int) :
    Meets K A s m (.reserve a min_capacity) (execute K A s (.reserve a min_capacity)) := by
  refine declared_meets rep (fun missing => by rw [meaning,missing]; rfl) fun o values here means holds => ?_
  have reserved := reserve_turns A s.context holds min_capacity
  refine meets_silent values rep rfl ?_ ?_
  · rw [demand,named_some here]
    exact reserved.mono fun made turns => turns.1
  · rw [meaning,← means,update_eq_self,means]
    rfl

theorem meets_push_back (rep : Represents K s.heap s.objects m) (a : Nat) (value : T) :
    Meets K A s m (.push_back a value) (execute K A s (.push_back a value)) := by
  refine declared_meets rep (fun missing => by rw [meaning,missing]; rfl) fun o values here means holds => ?_
  have pushed := push_back_turns A s.context holds value
  refine meets_silent (values ++ [value]) rep rfl ?_ (by rw [meaning,means]; rfl)
  rw [demand,named_some here]
  exact pushed

theorem meets_yields (rep : Represents K s.heap s.objects m) {made : Object × Heap T}
    (turns : Turns K s.heap (named s.objects a) values made)
    (means : meaning m call = some (update m a (some values),some value)) :
    Meets K A s m call (yields s a (.ok (value,made))) :=
  .done means (rep.become turns)

theorem meets_pop_back (rep : Represents K s.heap s.objects m) (a : Nat) :
    Meets K A s m (.pop_back a) (execute K A s (.pop_back a)) := by
  refine declared_meets rep (fun missing => by rw [meaning,missing]; rfl) fun o values here means holds => ?_
  rcases List.eq_nil_or_concat values with rfl | ⟨rest,value,rfl⟩
  · rw [pop_back,if_pos (show o.size = 0 from holds.size)]
    exact .rejected (by rw [meaning,means]; rfl) (by simp)
  · rw [List.concat_eq_append] at means holds
    obtain ⟨made,popped,turns⟩ := pop_back_turns holds
    rw [popped]
    rw [← named_some here] at turns
    refine meets_yields rep turns ?_
    rw [meaning,means]
    simp

theorem meets_pop_front (rep : Represents K s.heap s.objects m) (a : Nat) :
    Meets K A s m (.pop_front a) (execute K A s (.pop_front a)) := by
  refine declared_meets rep (fun missing => by rw [meaning,missing]; rfl) fun o values here means holds => ?_
  cases values with
  | nil =>
    rw [pop_front,if_pos (show o.size = 0 from holds.size)]
    exact .rejected (by rw [meaning,means]; rfl) (by simp)
  | cons value rest =>
    obtain ⟨made,popped,turns⟩ := pop_front_turns holds
    rw [popped]
    rw [← named_some here] at turns
    exact meets_yields rep turns (by rw [meaning,means]; rfl)

theorem meets_clear (rep : Represents K s.heap s.objects m) (a : Nat) :
    Meets K A s m (.clear a) (execute K A s (.clear a)) := by
  refine declared_meets rep (fun missing => by rw [meaning,missing]; rfl) fun o values here means holds => ?_
  obtain ⟨made,cleared,turns⟩ := clear_turns holds
  rw [← named_some here] at turns
  rw [cleared]
  exact .done (by rw [meaning,means]; rfl) (rep.become turns)

-- What slice takes off an array is readable while another array grows, and
-- while the array itself does, unless it has to move from under a later part.
theorem part_readable {index count : Int} (rep : Represents K s.heap s.objects m) (here : s.objects a = some o) (means : m a = some values)
    (there : s.objects other = some o') (list : m other = some elements)
    (steady : other = a → index = 0 ∨
      (o.size : Int) + (slice (T := T) index count o).size ≤ o.capacity) :
    (∃ more, sliced index count elements = some more ∧ Readable s.heap o values (slice index count o') more) ∨
      (sliced index count elements = none ∧ (slice (T := T) index count o').size < 0) := by
  have holds := rep.held there list
  have size := holds.size
  by_cases outside : index < 0 ∨ o'.size ≤ index
  · refine .inl ⟨[],if_pos (by rw [← size]; exact outside),?_⟩
    rw [slice,if_pos outside]
    exact .nothing
  have sliced_ : sliced index count elements = if count < 0 then none else
      some ((elements.drop index.toNat).take count.toNat) := if_neg (by rw [← size]; exact outside)
  have view : (slice index count o' : View T) =
      .memory o'.data index.toNat (if o'.size - index < count then o'.size - index else count) := if_neg outside
  by_cases negative : count < 0
  · refine .inr ⟨sliced_.trans (if_pos negative),?_⟩
    rw [view]
    show (if (o'.size : Int) - index < count then (o'.size : Int) - index else count) < 0
    rw [if_neg (by omega)]
    exact negative
  · rw [if_neg negative] at sliced_
    refine .inl ⟨_,sliced_,?_⟩
    have length : (((elements.drop index.toNat).take count.toNat).length : Int) =
        if (o'.size : Int) - index < count then (o'.size : Int) - index else count := by
      rw [List.length_take,List.length_drop,← size]
      split <;> omega
    have nth : ∀ (i : Nat) value, ((elements.drop index.toNat).take count.toNat)[i]? = some value →
        elements[index.toNat + i]? = some value := by
      intro i value nth
      rw [List.getElem?_take] at nth
      split at nth
      · rwa [List.getElem?_drop] at nth
      · cases nth
    rw [view,← length]
    by_cases same : other = a
    · subst same
      rw [here] at there
      cases there
      rw [means] at list
      cases list
      refine .own ?_ nth
      rcases steady rfl with zero | room
      · exact .inl (by omega)
      · rw [view] at room
        have room : (o.size : Int) + (if (o.size : Int) - index < count then (o.size : Int) - index else count) ≤ o.capacity := room
        exact .inr (by omega)
    · have live := holds
      cases holds with
      | empty => exact (outside (by show index < 0 ∨ ((0 : Nat) : Int) ≤ index; omega)).elim
      | @storage data allocator _ capacity null nonnull live' within positive word =>
        refine .other (fun data => same (rep.apart other a _ o there here data nonnull)) live' fun i value here => ?_
        exact filled_live (nth i value here)

theorem meets_extend (rep : Represents K s.heap s.objects m) (a : Nat) (source : Source T) (steady : Steady s (.extend a source)) :
    Meets K A s m (.extend a source) (execute K A s (.extend a source)) := by
  refine declared_meets rep (fun missing => by rw [meaning,missing]; rfl) fun o values here means holds => ?_
  -- where the view can be read
  have readable : ∀ (view : View T) more, source.list m = some more → Readable s.heap o values view more →
      Meets K A s m (.extend a source) (silent s a (extend K A s.context view o s.heap)) := by
    intro view more list readable
    have size := holds.size
    have meant : meaning m (.extend a source) = if SSIZE_MAX_VALUE < values.length + more.length then none
        else some (update m a (some (values ++ more)),none) := by
      rw [meaning,means,list]
      rfl
    by_cases large : SSIZE_MAX_VALUE < (values.length : Int) + more.length
    · rw [extend,ensure_space_for,if_pos (.inr (by rw [readable.size]; omega))]
      exact .rejected (meant.trans (if_pos large)) (by simp)
    · have extended := extend_turns A s.context holds readable (by omega)
      refine meets_silent (values ++ more) rep rfl ?_ (meant.trans (if_neg large))
      rw [demand,named_some here,list]
      exact extended
  cases source with
  | values elements => exact readable _ elements rfl (.values elements)
  | part other index count =>
    cases there : s.objects other with
    | none =>
      rw [Source.view,declared,there]
      refine .rejected ?_ (by simp)
      rw [meaning,means,Source.list,rep.absent other there]
      rfl
    | some o' =>
      rw [Source.view,declared,there]
      show Meets K A s m _ (silent s a (extend K A s.context (slice index count o') o s.heap))
      obtain ⟨elements,list⟩ := rep.meant there
      rw [Steady,named_some here] at steady
      have listed : (Source.part other index count).list m = sliced index count elements := by
        rw [Source.list,list]
        rfl
      rcases part_readable rep here means there list steady with ⟨more,sliced,read⟩ | ⟨sliced,negative⟩
      · exact readable _ more (listed.trans sliced) read
      · rw [extend,ensure_space_for,if_pos (.inl negative)]
        refine .rejected ?_ (by simp)
        rw [meaning,means,listed,sliced]
        rfl

theorem execute_meets (rep : Represents K s.heap s.objects m) (steady : Steady s call) :
    Meets K A s m call (execute K A s call) := by
  cases call with
  | set_allocator allocator => exact .done rfl rep
  | construct a initial_capacity allocator => exact meets_construct rep a initial_capacity allocator
  | construct_filled a initial_size value allocator => exact meets_construct_filled rep a initial_size value allocator
  | construct_copy a source => exact meets_construct_copy rep a source
  | construct_move a source => exact meets_construct_move rep a source
  | assign_copy a source => exact meets_assign_copy rep a source
  | assign_move a source => exact meets_assign_move rep a source
  | destruct a => exact meets_destruct rep a
  | read a index => exact meets_read rep a index
  | write a index value => exact meets_write rep a index value
  | reserve a min_capacity => exact meets_reserve rep a min_capacity
  | push_back a value => exact meets_push_back rep a value
  | extend a source => exact meets_extend rep a source steady
  | pop_back a => exact meets_pop_back rep a
  | pop_front a => exact meets_pop_front rep a
  | clear a => exact meets_clear rep a

end Calls

section Runs
variable {T : Type} {K : Element} {A : Allocators T}

-- A call with what it returned, of the code and of the lists.
def CallStep (K : Element) (A : Allocators T) (s : State T) (call : Call T × Option T) (t : State T) : Prop :=
  execute K A s call.1 = .ok (t,call.2)

def MeaningStep (m : Lists T) (call : Call T × Option T) (n : Lists T) : Prop := meaning m call.1 = some (n,call.2)

theorem run_represents (run : Run (CallStep K A) (fun s call => Steady s call.1) s calls t) (rep : Represents K s.heap s.objects m) :
    ∃ n, Run MeaningStep (fun _ _ => True) m calls n ∧ Represents K t.heap t.objects n := by
  induction run generalizing m with
  | nil => exact ⟨m,.nil,rep⟩
  | @cons s call t calls u steady step _ ih =>
    have meets := execute_meets (A := A) rep steady
    rw [show execute K A s call.1 = .ok (t,call.2) from step] at meets
    cases meets with
    | done means here =>
      obtain ⟨n,rest,last⟩ := ih here
      exact ⟨n,.cons trivial means rest,last⟩

end Runs

instance (s : State T) : DecidablePred (Steady s) := fun call => by
  unfold Steady
  split <;> infer_instance

def next (K : Element) (A : Allocators Nat) (s : State Nat) (call : Call Nat × Option Nat) : Option (State Nat) :=
  match execute K A s call.1 with
  | .ok (t,result) => if result = call.2 then some t else none
  | .error _ => none

theorem next_step (moved : next K A s call = some t) : CallStep K A s call t := by
  unfold next at moved
  split at moved
  · rename_i u result executed
    split at moved
    · rename_i same
      cases moved
      rw [CallStep,executed,same]
    · cases moved
  · cases moved

-- Words with a destructor; each allocator hands out the lowest unused address.
def word : Element := ⟨8,by decide,false⟩

def lowest : Allocators Nat where
  alloc allocator heap _ :=
    if allocator = nullAllocator then none else ((List.range 64).map (· + 1)).find? fun b => (heap b).isNone
  unused granted := by
    split at granted
    · cases granted
    · simpa using List.find?_some granted
  nonnull := by
    intro allocator heap bytes granted
    split at granted
    · cases granted
    · simpa using List.mem_of_find?_eq_some granted
  null := if_pos rfl

-- Grown, copied, moved, extended by a part of the copy; then two are left.
def shared : List (Call Nat × Option Nat) :=
  [(.construct 0 0 (some 1),none),(.push_back 0 7,none),(.push_back 0 8,none),(.construct_copy 1 0,none),
    (.construct_move 2 0,none),(.extend 2 (.part 1 1 5),none),(.pop_front 2,some 7),(.destruct 0,none)]

def sharedEnd : State Nat :=
  (follow (next word lowest) (fun s call => Steady s call.1) initialState shared).getD initialState

end ArrayLifetimes
