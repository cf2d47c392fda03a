import Gameos.ArrayOwnership

namespace ArrayLifetimes
open Function TransitionRuns

-- Why a call may stop although it has a meaning: its allocator has refused, or
-- the storage for n elements and the doubling does not fit a signed size.
inductive Excuse {T : Type} (K : Element) (A : Allocators T) (allocator : Nat) (n : Int) : Stop → Prop where
  | refused : A.alloc allocator heap bytes = none → Excuse K A allocator n (.asserted "Array allocation failed")
  | overflow : SSIZE_MAX_VALUE < K.size * (2 * n + 16) → Excuse K A allocator n .overflow

section Storage
variable {T : Type} {K : Element} {A : Allocators T} {context : Option Nat} {heap : Heap T} {n : Int}

theorem resolve_ensure (allocator : Option Nat) :
    resolve_allocator context (ensure_allocator context allocator) = resolve_allocator context allocator := by
  cases allocator with
  | some name => rfl
  | none => cases context <;> rfl

theorem resolve_some (name : Nat) : resolve_allocator context (some name) = name := rfl

theorem size_positive (K : Element) : (1 : Int) ≤ K.size := by
  have positive := K.positive
  omega

theorem scale_le {a b : Int} (K : Element) (le : a ≤ b) : (K.size : Int) * a ≤ K.size * b :=
  Int.mul_le_mul_of_nonneg_left le (by have positive := size_positive K; omega)

theorem le_scale (K : Element) {a : Int} (positive : 0 ≤ a) : a ≤ K.size * a := by
  have size := size_positive K
  nlinarith

-- New storage: a fresh buffer of the resolved allocator, with nothing in it.
structure Fresh (K : Element) (A : Allocators T) (allocator : Nat) (count : Int) (heap : Heap T) (buffer : Nat)
    (after : Heap T) : Prop where
  nonnull : buffer ≠ 0
  unused : heap buffer = none
  granted : A.alloc allocator heap (K.size * count) = some buffer
  fits : K.size * count ≤ SSIZE_MAX_VALUE
  held : after = holding heap buffer ⟨allocator,K.size * count,fun _ => .raw⟩

theorem granted_some (granted : A.alloc (resolve_allocator context allocator) heap bytes = some buffer) :
    ensure_allocator context allocator = some (resolve_allocator context allocator) := by
  cases ensured : ensure_allocator context allocator with
  | some name => simp [resolve_allocator,ensured]
  | none =>
    rw [resolve_allocator,ensured] at granted
    exact absurd (A.null.symm.trans granted) (by simp)

theorem allocate_ends (K : Element) (A : Allocators T) (context allocator : Option Nat) (heap : Heap T) (positive : 0 < count) (small : count ≤ 2 * n + 16) :
    Ends (Excuse K A (resolve_allocator context allocator) n)
      (fun made => Fresh K A (resolve_allocator context allocator) count heap made.1 made.2) (allocate_storage K A context allocator count heap) := by
  have size := size_positive K
  have nonneg : 0 < K.size * count := by nlinarith
  rw [allocate_storage,if_neg (by omega)]
  by_cases large : SSIZE_MAX_VALUE < K.size * count
  · rw [if_pos (.inl large)]
    exact .stop (.overflow (Int.lt_of_lt_of_le large (scale_le K small)))
  · rw [if_neg (by simp only [SSIZE_MAX_VALUE] at *; omega),if_neg (by omega)]
    cases granted : A.alloc (resolve_allocator context allocator) heap (K.size * count) with
    | none => exact .stop (.refused granted)
    | some buffer =>
      refine .ok ⟨?_,A.unused granted,granted,Int.not_lt.mp large,rfl⟩
      rintro rfl
      exact A.nonnull granted

theorem free_done {block : Block T} {count : Nat} (nonnull : buffer ≠ 0) (here : heap buffer = some block)
    (owner : block.allocator = resolve_allocator context allocator) (bytes : block.bytes = K.size * count)
    (raw : K.trivial = false → block.slots = fun _ => .raw) :
    free_storage K context allocator buffer count heap = .ok (update heap buffer none) := by
  rw [free_storage,if_neg nonnull,here]
  have matching : ¬(block.allocator ≠ resolve_allocator context allocator ∨ block.bytes ≠ K.size * (count : Int)) := by
    simp [owner,bytes]
  show (if _ then _ else if _ then _ else _) = _
  rw [if_neg matching,if_pos]
  cases trivial : K.trivial with
  | true => rfl
  | false => simp [raw trivial,Slot.isRaw]

theorem free_null : free_storage K context allocator 0 count heap = .ok heap := if_pos rfl

-- 64 turns are enough: a capacity that was doubled 63 times has overflowed.
theorem doubling_ends (turns : Nat) (capacity : Int) {min_capacity : Int} (le : turns ≤ 64)
    (low : (2 : Int) ^ (64 - turns) ≤ capacity)
    (fits : capacity ≤ SSIZE_MAX_VALUE) (small : capacity ≤ 2 * min_capacity + 16) (nonneg : 0 ≤ min_capacity) :
    Ends (Excuse K A allocator min_capacity)
      (fun grown => min_capacity ≤ grown ∧ capacity ≤ grown ∧ grown ≤ 2 * min_capacity + 16)
      (doubling turns capacity min_capacity) := by
  induction turns generalizing capacity with
  | zero =>
    simp only [SSIZE_MAX_VALUE] at fits
    norm_num at low
    omega
  | succ turns ih =>
    rw [doubling]
    by_cases less : capacity < min_capacity
    · rw [if_pos less]
      by_cases large : SSIZE_MAX_VALUE < capacity * 2
      · rw [if_pos large]
        refine .stop (.overflow ?_)
        have scaled := le_scale K (show 0 ≤ 2 * min_capacity + 16 by omega)
        omega
      · rw [if_neg large]
        have power : (2 : Int) ^ (64 - turns) = 2 ^ (64 - (turns + 1)) * 2 := by
          rw [show 64 - turns = 64 - (turns + 1) + 1 by omega,pow_succ]
        refine (ih (capacity * 2) (by omega) (by omega) (by omega) (by omega)).mono fun grown ⟨enough,more,bound⟩ => ?_
        have positive : (0 : Int) < 2 ^ (64 - (turns + 1)) := by positivity
        exact ⟨enough,by omega,bound⟩
    · rw [if_neg less]
      exact .ok ⟨by omega,Int.le_refl _,small⟩

end Storage

-- An array owns its elements: a buffer of its allocator, of its capacity, that
-- holds these values and nothing else. One that was moved from has no buffer.
inductive Holds {T : Type} (K : Element) (heap : Heap T) : Object → List T → Prop where
  | empty : heap 0 = none → Holds K heap ⟨allocator,0,0,0⟩ []
  | storage {capacity : Nat} : heap 0 = none → data ≠ 0 → heap data = some ⟨allocator,K.size * capacity,filled values⟩ →
      values.length ≤ capacity → 0 < capacity → K.size * (capacity : Int) ≤ SSIZE_MAX_VALUE →
      Holds K heap ⟨some allocator,capacity,values.length,data⟩ values

-- What an operation on one array leaves of the memory.
structure Turns {T : Type} (K : Element) (heap : Heap T) (o : Object) (values : List T) (made : Object × Heap T) : Prop where
  holds : Holds K made.2 made.1 values
  others : ∀ b, b ≠ o.data → b ≠ made.1.data → made.2 b = heap b
  freed : made.1.data ≠ o.data → made.2 o.data = none
  fresh : made.1.data ≠ o.data → heap made.1.data = none

section Objects
variable {T : Type} {K : Element} {A : Allocators T} {context : Option Nat} {heap : Heap T} {values : List T} {o : Object}

theorem Holds.null (holds : Holds K heap o values) : heap 0 = none := by cases holds <;> assumption

theorem Holds.size (holds : Holds K heap o values) : o.size = values.length := by cases holds <;> rfl

theorem Holds.size_le (holds : Holds K heap o values) : o.size ≤ o.capacity := by
  cases holds with
  | empty => exact Nat.le_refl _
  | storage _ _ _ room => exact room

theorem Holds.capacity_le (holds : Holds K heap o values) : (o.capacity : Int) ≤ SSIZE_MAX_VALUE := by
  cases holds with
  | empty => show (0 : Int) ≤ SSIZE_MAX_VALUE; decide
  | storage _ _ _ _ _ fits => exact Int.le_trans (le_scale K (Int.natCast_nonneg _)) fits

-- The same buffer with other contents.
theorem Turns.contents {block : Block T} (null : heap 0 = none) (nonnull : o.data ≠ 0) (here : heap o.data = some block)
    (allocator : o.allocator = some block.allocator) (bytes : block.bytes = K.size * o.capacity)
    (room : values.length ≤ o.capacity) (positive : 0 < o.capacity) (fits : K.size * (o.capacity : Int) ≤ SSIZE_MAX_VALUE) :
    Turns K heap o values ({o with size := values.length},holding heap o.data (block.with (filled values))) := by
  refine ⟨?_,fun b other _ => holding_other other,by simp,by simp⟩
  obtain ⟨owner,capacity,size,data⟩ := o
  obtain rfl : owner = some block.allocator := allocator
  have still : holding heap data (block.with (filled values)) 0 = none := by rw [holding_other (Ne.symm nonnull),null]
  refine .storage still nonnull ?_ room positive fits
  show holding heap data (block.with (filled values)) data = _
  rw [holding_here,← bytes]
  rfl

theorem Turns.null {made : Object × Heap T} (turns : Turns K heap o values made) : made.2 0 = none := turns.holds.null

theorem Turns.trans {made done : Object × Heap T} {later : List T} (one : Turns K heap o values made)
    (two : Turns K made.2 made.1 later done) : Turns K heap o later done := by
  refine ⟨two.holds,?_,?_,?_⟩
  · intro b before after
    by_cases middle : b = made.1.data
    · subst middle
      rw [two.freed (Ne.symm after),one.fresh before]
    · rw [two.others b middle after,one.others b before middle]
  · intro moved
    by_cases middle : o.data = made.1.data
    · rw [middle] at moved ⊢
      exact two.freed moved
    · rw [two.others _ middle (Ne.symm moved)]
      exact one.freed (Ne.symm middle)
  · intro moved
    by_cases middle : done.1.data = made.1.data
    · rw [middle] at moved ⊢
      exact one.fresh moved
    · rw [← one.others _ moved middle]
      exact two.fresh middle

theorem Turns.refl (holds : Holds K heap o values) : Turns K heap o values (o,heap) :=
  ⟨holds,fun _ _ _ => rfl,by simp,by simp⟩

theorem bind_assoc (x : Except Stop α) (f : α → Except Stop β) (g : β → Except Stop γ) :
    (x.bind fun a => (f a).bind g) = (x.bind f).bind g := by
  cases x <;> rfl

-- The elements in a fresh buffer, the old one freed to the allocator and as of
-- the size it came from.
theorem moves_over {new : Block T} (context : Option Nat) (holds : Holds K heap o values) (nonnull : target ≠ 0) (unused : heap target = none)
    (raw : new.slots = fun _ => .raw) (room : K.size * values.length ≤ new.bytes) : ∃ after,
    ((forRange (relocate K o.data target) 0 o.size (holding heap target new)).bind
      (free_storage K context (ensure_allocator context o.allocator) o.data o.capacity)) = .ok after ∧
    after target = some (new.with (filled values)) ∧ after o.data = none ∧
    ∀ b, b ≠ o.data → b ≠ target → after b = heap b := by
  cases holds with
  | empty null =>
    refine ⟨holding heap target new,free_null,?_,?_,fun b _ other => holding_other other⟩
    · rw [holding_here,filled_nil,← raw,with_self]
    · rw [holding_other nonnull.symm,null]
  | @storage data allocator _ capacity null live here fits positive word =>
    have apart : data ≠ target := by
      rintro rfl
      rw [unused] at here
      cases here
    have here' : holding heap target new data = some ⟨allocator,K.size * capacity,filled values⟩ := by
      rw [holding_other apart,here]
    obtain ⟨slots,moved,empty⟩ := relocate_all apart here' rfl holding_here raw room
    let old : Block T := ⟨allocator,K.size * capacity,slots⟩
    refine ⟨update (holding (holding (holding heap target new) data old) target (new.with (filled values))) data none,
      ?_,?_,update_self ..,?_⟩
    · show (forRange (relocate K data target) 0 values.length (holding heap target new)).bind _ = _
      rw [moved]
      have left : holding (holding (holding heap target new) data old) target (new.with (filled values)) data = some old := by
        rw [holding_other apart,holding_here]
      exact free_done live left rfl rfl empty
    · rw [update_of_ne apart.symm,holding_here]
    · intro b old fresh
      rw [update_of_ne old,holding_other fresh,holding_other old,holding_other fresh]

theorem reserve_turns (A : Allocators T) (context : Option Nat) (holds : Holds K heap o values) (min_capacity : Int) :
    Ends (Excuse K A (resolve_allocator context o.allocator) min_capacity)
      (fun made => Turns K heap o values made ∧ min_capacity ≤ made.1.capacity ∧
        (min_capacity ≤ o.capacity → made.1.data = o.data)) (reserve K A context min_capacity o heap) := by
  by_cases enough : min_capacity ≤ o.capacity
  · rw [reserve,if_pos enough]
    exact .ok ⟨.refl holds,enough,fun _ => rfl⟩
  rw [reserve,if_neg enough]
  have start : (1 : Int) ≤ (if o.capacity = 0 then 16 else o.capacity : Int) ∧
      (if o.capacity = 0 then 16 else o.capacity : Int) ≤ 2 * min_capacity + 16 ∧
      (if o.capacity = 0 then 16 else o.capacity : Int) ≤ SSIZE_MAX_VALUE := by
    have fits := holds.capacity_le
    split
    · exact ⟨by omega,by omega,by decide⟩
    · exact ⟨by omega,by omega,fits⟩
  refine (doubling_ends 64 _ (Nat.le_refl _) (by simpa using start.1) start.2.2 start.2.1 (by omega)).bind
    fun new_capacity ⟨reached,_,bound⟩ => ?_
  have allocated := allocate_ends K A context (ensure_allocator context o.allocator) heap (show 0 < new_capacity by omega) bound
  rw [resolve_ensure] at allocated
  refine allocated.bind fun (new_data,after) fresh => ?_
  obtain ⟨nonnull,unused,granted,fits,rfl⟩ : Fresh K A _ new_capacity heap new_data after := fresh
  have capacity : ((new_capacity.toNat : Nat) : Int) = new_capacity := by omega
  have length : (values.length : Int) ≤ new_capacity := by
    have size_le := holds.size_le
    have size := holds.size
    omega
  let new : Block T := ⟨resolve_allocator context o.allocator,K.size * new_capacity,fun _ => .raw⟩
  have room : K.size * values.length ≤ new.bytes := scale_le K length
  obtain ⟨after,done,there,gone,others⟩ := moves_over context holds nonnull unused (show new.slots = _ from rfl) room
  let grown : Object := ⟨ensure_allocator context o.allocator,new_capacity.toNat,o.size,new_data⟩
  refine .same (a := (grown,after)) ?_ ⟨⟨?_,others,fun _ => gone,fun _ => unused⟩,?_,fun here => absurd here enough⟩
  · show ((forRange (relocate K o.data new_data) 0 o.size _).bind fun heap =>
      (free_storage K context (ensure_allocator context o.allocator) o.data o.capacity heap).bind fun heap =>
        .ok (grown,heap)) = _
    rw [bind_assoc,done]
    rfl
  · show Holds K after ⟨ensure_allocator context o.allocator,new_capacity.toNat,o.size,new_data⟩ values
    rw [granted_some granted,holds.size]
    refine .storage ?_ nonnull ?_ (by omega) (by omega) (by rw [capacity]; exact fits)
    · by_cases old : 0 = o.data
      · rw [old,gone]
      · rw [others 0 old nonnull.symm,holds.null]
    · rw [there,capacity]
      rfl
  · show min_capacity ≤ (new_capacity.toNat : Int)
    omega

theorem Holds.load (holds : Holds K heap o values) (nth : values[index]? = some value) : load heap o.data index = .ok value := by
  cases holds with
  | empty => cases nth
  | storage _ _ here => exact load_live here (filled_live nth)

theorem Holds.present {index : Nat} {value : T} (holds : Holds K heap o values) (nth : values[index]? = some value) : ∃ block, heap o.data = some block := by
  cases holds with
  | empty => cases nth
  | storage _ _ here => exact ⟨_,here⟩

theorem load_congr {middle : Heap T} (same : middle buffer = heap buffer) : ArrayLifetimes.load middle buffer index =
    ArrayLifetimes.load heap buffer index := by
  rw [ArrayLifetimes.load,ArrayLifetimes.load,same]

theorem reserve_enough {min_capacity : Int} (enough : min_capacity ≤ o.capacity) : reserve K A context min_capacity o heap = .ok (o,heap) :=
  if_pos enough

theorem push_back_room (A : Allocators T) (context : Option Nat) (holds : Holds K heap o values) (room : o.size < o.capacity) (element : Heap T → Except Stop T)
    (reads : element heap = .ok value) : ∃ made, push_back K A context element o heap = .ok made ∧
      Turns K heap o (values ++ [value]) made ∧ made.1.data = o.data ∧ made.1.capacity = o.capacity := by
  have fits := holds.capacity_le
  cases holds with
  | empty => cases room
  | @storage data allocator _ capacity null live here within positive word =>
    let block : Block T := ⟨allocator,K.size * capacity,filled values⟩
    have length : (values ++ [value]).length = values.length + 1 := by simp
    refine ⟨(⟨some allocator,capacity,values.length + 1,data⟩,holding heap data (block.with (filled (values ++ [value])))),?_,?_,
      rfl,rfl⟩
    · rw [push_back,if_neg (by show ¬SSIZE_MAX_VALUE < (values.length : Int) + 1; simp only at room fits; omega),
        reserve_enough (by show (values.length : Int) + 1 ≤ capacity; simp only at room; omega)]
      show (element heap).bind _ = _
      rw [reads]
      show (store K data values.length value heap).bind _ = _
      rw [store_raw here (room_for room (Int.le_refl _)) (filled_raw (Nat.le_refl _)),filled_snoc]
      rfl
    · rw [← length]
      exact Turns.contents null live here rfl rfl
        (by simp only at room ⊢; omega) positive word

theorem push_back_turns (A : Allocators T) (context : Option Nat) (holds : Holds K heap o values) (value : T) :
    Ends (Excuse K A (resolve_allocator context o.allocator) (o.size + 1)) (Turns K heap o (values ++ [value]))
      (push_back K A context (fun _ => .ok value) o heap) := by
  by_cases large : SSIZE_MAX_VALUE < (o.size : Int) + 1
  · rw [push_back,if_pos large]
    have scaled := le_scale K (show 0 ≤ 2 * ((o.size : Int) + 1) + 16 by omega)
    exact .stop (.overflow (by omega))
  · rw [push_back,if_neg large]
    refine (reserve_turns A context holds _).bind fun (grown,after) ⟨turns,enough,_⟩ => ?_
    have size : grown.size = o.size := by
      rw [turns.holds.size,holds.size]
    have room : grown.size < grown.capacity := by
      simp only at enough
      omega
    obtain ⟨made,pushed,later,_⟩ := push_back_room A context turns.holds room (fun _ => .ok value) rfl
    rw [push_back,if_neg (by rw [size]; exact large),
      reserve_enough (show (grown.size : Int) + 1 ≤ grown.capacity by omega)] at pushed
    exact .same pushed (turns.trans later)

-- Elements that can be read one after the other while the array grows.
theorem push_all_turns (A : Allocators T) (context : Option Nat) (element : Nat → Object → Heap T → Except Stop T) (more : List T) (index : Nat)
    (holds : Holds K heap o values) (room : o.size + more.length ≤ o.capacity)
    (nth : ∀ i value now middle added, more[i]? = some value → Holds K middle now (values ++ added) → now.data = o.data →
      (∀ b, b ≠ o.data → middle b = heap b) → element (index + i) now middle = .ok value) :
    ∃ made, forRange (fun i (o,heap) => push_back K A context (element i o) o heap) index more.length (o,heap) = .ok made ∧
      Turns K heap o (values ++ more) made := by
  induction more generalizing heap o values index with
  | nil => exact ⟨(o,heap),rfl,by simpa using Turns.refl holds⟩
  | cons value more ih =>
    have reads : element index o heap = .ok value :=
      nth 0 value o heap [] rfl (by simpa using holds) rfl fun _ _ => rfl
    rw [List.length_cons] at room
    obtain ⟨⟨grown,after⟩,pushed,turns,data,capacity⟩ :=
      push_back_room A context holds (by omega) (element index o) reads
    simp only at data capacity
    have size : grown.size = o.size + 1 := by
      rw [turns.holds.size,holds.size]
      simp
    obtain ⟨made,rest,later⟩ := ih (index + 1) turns.holds (by simp only; omega) (by
      intro i other now middle added here held same others
      have read := nth (i + 1) other now middle (value :: added) here (by simpa using held) (same.trans data) (by
        intro b apart
        rw [others b (by simp only [data]; exact apart)]
        exact turns.others b apart (by simp only [data]; exact apart))
      rwa [show index + (i + 1) = index + 1 + i by omega] at read)
    refine ⟨made,?_,by simpa using turns.trans later⟩
    rw [List.length_cons,forRange]
    show (push_back K A context (element index o) o heap).bind _ = _
    rw [pushed]
    exact rest

-- A view that stays readable while the array grows: elements from elsewhere, of
-- another buffer, or the array's own, as far as they are read by index or stay.
inductive Readable (heap : Heap T) (o : Object) (values : List T) : View T → List T → Prop where
  | values (more : List T) : Readable heap o values (.values more) more
  | nothing : Readable heap o values (.memory data offset 0) []
  | other : data ≠ o.data → heap data = some block →
      (∀ i value, more[i]? = some value → block.slots (offset + i) = .live value) →
      Readable heap o values (.memory data offset more.length) more
  | own : offset = 0 ∨ o.size + more.length ≤ o.capacity →
      (∀ i value, more[i]? = some value → values[offset + i]? = some value) →
      Readable heap o values (.memory o.data offset more.length) more

theorem Readable.size {source : View T} (readable : Readable heap o values source more) : source.size = more.length := by
  cases readable <;> rfl

theorem append_nth {values added : List T} {index : Nat} {value : T} (nth : values[index]? = some value) : (values ++ added)[index]? = some value := by
  obtain ⟨inside,_⟩ := List.getElem?_eq_some_iff.mp nth
  rwa [List.getElem?_append_left inside]

-- What the loop of extend reads in the end are the elements the view had.
theorem Readable.reads {source : View T} (readable : Readable heap o values source more)
    {grown now : Object} {after middle : Heap T} (turns : Turns K heap o values (grown,after))
    (stays : o.size + more.length ≤ o.capacity → grown.data = o.data) (nth : more[i]? = some value)
    (held : Holds K middle now (values ++ added)) (same : now.data = grown.data)
    (others : ∀ b, b ≠ grown.data → middle b = after b) :
    (if source.isSelf o then load middle now.data i else source.read i middle) = .ok value := by
  cases readable with
  | values =>
    show ((more[i]?).elim _ _ : Except Stop T) = _
    rw [nth]
    rfl
  | nothing => cases nth
  | @other data block _ offset apart here live =>
    have unmoved : data ≠ grown.data := by
      intro moved
      have unused := turns.fresh (by show grown.data ≠ o.data; rw [← moved]; exact apart)
      rw [← moved,here] at unused
      cases unused
    have foreign : (View.memory data offset more.length : View T).isSelf o = false := by simp [View.isSelf,apart]
    rw [foreign]
    show load middle data (offset + i) = _
    refine load_live ?_ (live i value nth)
    rw [others data unmoved]
    exact (turns.others data apart unmoved).trans here
  | @own offset _ still own =>
    have here : (values ++ added)[offset + i]? = some value := append_nth (own i value nth)
    by_cases self : offset = 0
    · subst self
      rw [if_pos (by simp [View.isSelf])]
      rw [Nat.zero_add] at here
      exact held.load here
    · rw [if_neg (by simp [View.isSelf,self])]
      show load middle o.data (offset + i) = _
      rw [← stays (still.resolve_left self),← same]
      exact held.load here

theorem extend_turns {source : View T} (A : Allocators T) (context : Option Nat) (holds : Holds K heap o values) (readable : Readable heap o values source more)
    (fits : (o.size : Int) + more.length ≤ SSIZE_MAX_VALUE) :
    Ends (Excuse K A (resolve_allocator context o.allocator) (o.size + more.length)) (Turns K heap o (values ++ more))
      (extend K A context source o heap) := by
  have size := readable.size
  rw [extend,ensure_space_for,if_neg (by omega),size]
  refine (reserve_turns A context holds _).bind fun (grown,after) ⟨turns,enough,kept⟩ => ?_
  have same : grown.size = o.size := by rw [turns.holds.size,holds.size]
  have stays : o.size + more.length ≤ o.capacity → grown.data = o.data :=
    fun room => kept (by omega)
  obtain ⟨made,pushed,later⟩ := push_all_turns A context
    (fun i now middle => if source.isSelf o then load middle now.data i else source.read i middle) more 0 turns.holds
    (by simp only at enough ⊢; omega) fun i value now middle added nth held data others => by
      rw [Nat.zero_add]
      exact readable.reads turns stays nth held data others
  exact .same pushed (turns.trans later)

-- What a name stands for that is not an array's.
def nobody : Object := ⟨none,0,0,0⟩

theorem fresh_turns {capacity : Int} (null : heap 0 = none) (fresh : Fresh K A allocator capacity heap data after)
    (positive : 0 < capacity) (room : (values.length : Int) ≤ capacity) :
    Turns K heap nobody values (⟨some allocator,capacity.toNat,values.length,data⟩,
      holding heap data ⟨allocator,K.size * capacity,filled values⟩) := by
  have word : ((capacity.toNat : Nat) : Int) = capacity := by omega
  have still : holding heap data ⟨allocator,K.size * capacity,filled values⟩ 0 = none := by
    rw [holding_other fresh.nonnull.symm,null]
  refine ⟨?_,fun b _ other => holding_other other,fun _ => still,fun _ => fresh.unused⟩
  refine .storage still fresh.nonnull ?_ (by omega) (by omega) (by rw [word]; exact fresh.fits)
  show holding heap data ⟨allocator,K.size * capacity,filled values⟩ data = _
  rw [holding_here,word]

-- Values that are read elsewhere go into fresh storage.
theorem fresh_store {capacity : Int} (null : heap 0 = none) (fresh : Fresh K A allocator capacity heap data after)
    (positive : 0 < capacity) (room : (values.length : Int) ≤ capacity) {read : Nat → Heap T → Except Stop T}
    (nth : ∀ i value middle, values[i]? = some value → (∀ c, c ≠ data → middle c = heap c) → read i middle = .ok value) :
    ∃ done, forRange (fun i heap => (read i heap).bind fun value => store K data i value heap) 0 values.length after =
        .ok done ∧ Turns K heap nobody values (⟨some allocator,capacity.toNat,values.length,data⟩,done) := by
  refine ⟨_,?_,fresh_turns null fresh positive room⟩
  obtain rfl := fresh.held
  rw [store_all (fun i value middle here others => ?_) holding_here rfl (scale_le K room),holding_again]
  · rfl
  · exact nth i value middle here fun c other => (others c other).trans (holding_other other)

theorem construct_fresh (allocator : Option Nat) {initial_capacity : Int} (nonneg : 0 ≤ initial_capacity) :
    Ends (Excuse K A (resolve_allocator context allocator) initial_capacity)
      (fun made => ∃ capacity data, Fresh K A (resolve_allocator context allocator) capacity heap data made.2 ∧ 0 < capacity ∧
        initial_capacity ≤ capacity ∧ made.1 = ⟨some (resolve_allocator context allocator),capacity.toNat,0,data⟩)
      (construct K A context initial_capacity allocator heap) := by
  have positive : 0 < (if initial_capacity = 0 then 1 else initial_capacity) := by split <;> omega
  have small : (if initial_capacity = 0 then 1 else initial_capacity) ≤ 2 * initial_capacity + 16 := by split <;> omega
  have enough : initial_capacity ≤ (if initial_capacity = 0 then 1 else initial_capacity) := by split <;> omega
  have allocated := allocate_ends K A context (some (resolve_allocator context allocator)) heap positive small
  rw [resolve_some] at allocated
  exact allocated.bind fun (data,after) fresh => .ok ⟨_,data,fresh,positive,enough,rfl⟩

theorem construct_turns (K : Element) (A : Allocators T) (context : Option Nat) (null : heap 0 = none) (allocator : Option Nat) {initial_capacity : Int} (nonneg : 0 ≤ initial_capacity) :
    Ends (Excuse K A (resolve_allocator context allocator) initial_capacity) (Turns K heap nobody [])
      (construct K A context initial_capacity allocator heap) := by
  refine (construct_fresh allocator nonneg).mono fun (o,after) ⟨capacity,data,fresh,positive,_,made⟩ => ?_
  obtain rfl : o = ⟨some (resolve_allocator context allocator),capacity.toNat,0,data⟩ := made
  have turns : Turns K heap nobody ([] : List T) _ := fresh_turns null fresh positive (Int.le_of_lt positive)
  rw [filled_nil,← fresh.held] at turns
  exact turns

theorem construct_filled_turns (K : Element) (A : Allocators T) (context : Option Nat) (null : heap 0 = none) (allocator : Option Nat) {initial_size : Int} (nonneg : 0 ≤ initial_size)
    (value : T) : Ends (Excuse K A (resolve_allocator context allocator) initial_size)
      (Turns K heap nobody (List.replicate initial_size.toNat value))
      (construct_filled K A context initial_size value allocator heap) := by
  refine (construct_fresh allocator nonneg).bind fun (o,after) ⟨capacity,data,fresh,positive,room,made⟩ => ?_
  obtain rfl : o = ⟨some (resolve_allocator context allocator),capacity.toNat,0,data⟩ := made
  have values : (List.replicate initial_size.toNat value).length = initial_size.toNat := List.length_replicate
  have nth : ∀ (i : Nat) other (middle : Heap T), (List.replicate initial_size.toNat value)[i]? = some other →
      (∀ c, c ≠ data → middle c = heap c) → Except.ok (ε := Stop) value = .ok other := by
    intro i other middle nth _
    rw [List.getElem?_replicate] at nth
    split at nth
    · rw [Option.some.inj nth]
    · cases nth
  obtain ⟨done,filled,turns⟩ := fresh_store null fresh positive (by rw [values]; omega) nth
  rw [values] at filled turns
  have loop : forRange (fun index heap => store K data index value heap) 0 initial_size.toNat after = .ok done := filled
  show Ends _ _ ((forRange (fun index heap => store K data index value heap) 0 initial_size.toNat after).bind _)
  rw [loop]
  exact .ok turns

theorem construct_copy_turns {source : Object} (A : Allocators T) (context : Option Nat) (holds : Holds K heap source values) :
    Ends (Excuse K A (resolve_allocator context source.allocator) source.capacity) (Turns K heap nobody values)
      (construct_copy K A context source heap) := by
  have positive : (0 : Int) < ((if source.capacity = 0 then 1 else source.capacity : Nat) : Int) := by split <;> omega
  have small : ((if source.capacity = 0 then 1 else source.capacity : Nat) : Int) ≤ 2 * source.capacity + 16 := by
    split <;> omega
  have allocated := allocate_ends K A context (some (resolve_allocator context source.allocator)) heap positive small
  rw [resolve_some] at allocated
  refine allocated.bind fun (data,after) fresh => ?_
  have room : (values.length : Int) ≤ ((if source.capacity = 0 then 1 else source.capacity : Nat) : Int) := by
    have size := holds.size
    have size_le := holds.size_le
    split <;> omega
  have nth : ∀ (i : Nat) value (middle : Heap T), values[i]? = some value → (∀ c, c ≠ data → middle c = heap c) →
      load middle source.data i = .ok value := by
    intro i value middle nth others
    obtain ⟨block,here⟩ := holds.present nth
    have apart : source.data ≠ data := by
      rintro rfl
      rw [fresh.unused] at here
      cases here
    rw [load_congr (others _ apart)]
    exact holds.load nth
  obtain ⟨done,copied,turns⟩ := fresh_store holds.null fresh positive room nth
  show Ends _ _ ((forRange (fun i heap => (load heap source.data i).bind fun value => store K data i value heap) 0
    source.size after).bind _)
  rw [holds.size,copied]
  exact .ok turns

-- The elements are destroyed and the storage goes back to where it came from.
theorem destruct_turns (context : Option Nat) (holds : Holds K heap o values) :
    ∃ after, destruct K context o heap = .ok after ∧ Turns K heap o [] (nobody,after) := by
  cases holds with
  | empty null => exact ⟨heap,rfl,.empty null,fun _ _ _ => rfl,fun other => absurd rfl other,fun other => absurd rfl other⟩
  | @storage data allocator _ capacity null live here within positive word =>
    have apart : (0 : Nat) ≠ data := fun same => live same.symm
    refine ⟨update (holding heap data ⟨allocator,K.size * capacity,fun _ => .raw⟩) data none,?_,?_⟩
    · show (forRange (destroy data) 0 values.length heap).bind _ = _
      rw [destroy_all here rfl]
      exact free_done live holding_here rfl rfl fun _ => rfl
    · have still : update (holding heap data ⟨allocator,K.size * capacity,fun _ => .raw⟩) data none 0 = none := by
        rw [update_of_ne apart,holding_other apart,null]
      refine ⟨.empty still,fun b old _ => ?_,fun _ => update_self ..,fun _ => null⟩
      show update (holding heap data _) data none b = heap b
      rw [update_of_ne old,holding_other old]

theorem clear_turns (holds : Holds K heap o values) : ∃ made, clear o heap = .ok made ∧ Turns K heap o [] made := by
  cases holds with
  | empty null => exact ⟨_,rfl,.refl (.empty null)⟩
  | @storage data allocator _ capacity null live here within positive word =>
    have turns : Turns K heap ⟨some allocator,capacity,values.length,data⟩ ([] : List T) _ :=
      Turns.contents null live here rfl rfl (Nat.zero_le _) positive word
    refine ⟨_,?_,turns⟩
    show (forRange (destroy data) 0 values.length heap).bind _ = _
    rw [destroy_all here rfl,filled_nil]
    rfl

theorem filled_dropped (values : List T) (value : T) :
    update (filled (values ++ [value])) values.length .raw = filled values := by
  rw [← filled_snoc,update_idem,← filled_raw (Nat.le_refl values.length),update_eq_self]

theorem pop_back_turns (holds : Holds K heap o (values ++ [value])) :
    ∃ made, pop_back o heap = .ok (value,made) ∧ Turns K heap o values made := by
  have length : (values ++ [value]).length = values.length + 1 := by simp
  generalize same : values ++ [value] = whole at holds length
  cases holds with
  | empty => simp at length
  | @storage data allocator _ capacity null live here within positive word =>
    have last : filled whole values.length = .live value := filled_live (by rw [← same]; simp)
    obtain ⟨moved,taken,destroyed⟩ := take_destroy here last
    have turns : Turns K heap ⟨some allocator,capacity,whole.length,data⟩ values _ :=
      Turns.contents null live here rfl rfl (by show values.length ≤ capacity; omega) positive word
    refine ⟨_,?_,turns⟩
    rw [pop_back,if_neg (by show ¬whole.length = 0; omega)]
    show (take data (whole.length - 1) heap).bind _ = _
    rw [show whole.length - 1 = values.length by omega,taken]
    show (destroy data values.length moved).bind _ = _
    rw [destroyed,← same,filled_dropped]
    rfl

theorem pop_front_turns (holds : Holds K heap o (value :: values)) :
    ∃ made, pop_front K o heap = .ok (value,made) ∧ Turns K heap o values made := by
  generalize same : value :: values = whole at holds
  have length : whole.length = values.length + 1 := by rw [← same,List.length_cons]
  cases holds with
  | empty => cases same
  | @storage data allocator _ capacity null live here within positive word =>
    let block : Block T := ⟨allocator,K.size * capacity,filled whole⟩
    have first : filled whole 0 = .live value := filled_live (by rw [← same]; rfl)
    obtain ⟨moved,taken,destroyed⟩ := take_destroy here first
    rw [← shifted_first] at destroyed
    have gone : holding heap data (block.with (shifted whole 1)) data = some (block.with (shifted whole 1)) := holding_here
    have room : K.size * whole.length ≤ (block.with (shifted whole 1)).bytes :=
      scale_le K (show (whole.length : Int) ≤ capacity by omega)
    have shift := shift_all gone rfl room (by omega)
    have turns : Turns K heap ⟨some allocator,capacity,whole.length,data⟩ values _ :=
      Turns.contents null live here rfl rfl (by show values.length ≤ capacity; omega) positive word
    refine ⟨_,?_,turns⟩
    rw [pop_front,if_neg (by show ¬whole.length = 0; omega)]
    show (take data 0 heap).bind _ = _
    rw [taken]
    show (destroy data 0 moved).bind _ = _
    rw [destroyed]
    show (forRange _ 1 (whole.length - 1) (holding heap data (block.with (shifted whole 1)))).bind _ = _
    rw [shift,holding_again,← same]
    rfl

theorem write_turns (holds : Holds K heap o values) (inside : index < values.length) (value : T) :
    ∃ after, overwrite o.data index value heap = .ok after ∧ Turns K heap o (values.set index value) (o,after) := by
  obtain ⟨old,nth⟩ := nth_value inside
  cases holds with
  | empty => cases nth
  | @storage data allocator _ capacity null live here within positive word =>
    have turns : Turns K heap ⟨some allocator,capacity,values.length,data⟩ (values.set index value) _ :=
      Turns.contents null live here rfl rfl (by rw [List.length_set]; exact within) positive word
    rw [List.length_set] at turns
    refine ⟨_,?_,turns⟩
    rw [overwrite_live here (filled_live nth),filled_set inside]

end Objects

end ArrayLifetimes
