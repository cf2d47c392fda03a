import Gameos.ArrayLifetimes
import Mathlib.Tactic.Linarith

namespace ArrayLifetimes
open Function TransitionRuns

-- How a computation that may stop ends: well, or with an excuse.
inductive Ends (excuse : Stop → Prop) (good : α → Prop) : Except Stop α → Prop where
  | ok : good x → Ends excuse good (.ok x)
  | stop : excuse reason → Ends excuse good (.error reason)

section Ends
variable {excuse : Stop → Prop}

theorem Ends.bind {x : Except Stop α} {f : α → Except Stop β} {good : α → Prop} {better : β → Prop}
    (ends : Ends excuse good x) (next : ∀ a, good a → Ends excuse better (f a)) : Ends excuse better (x.bind f) := by
  cases ends with
  | ok holds => exact next _ holds
  | stop reason => exact .stop reason

theorem Ends.mono {x : Except Stop α} {good better : α → Prop} (ends : Ends excuse good x) (implies : ∀ a, good a → better a) :
    Ends excuse better x := by
  cases ends with
  | ok holds => exact .ok (implies _ holds)
  | stop reason => exact .stop reason

theorem Ends.same {x : Except Stop α} {good : α → Prop} (same : x = .ok a) (holds : good a) : Ends excuse good x :=
  same ▸ .ok holds

-- A loop that goes through known states.
theorem range_follows (body : Nat → S → Except Stop S) (index count : Nat) (states : Nat → S)
    (turn : ∀ i, index ≤ i → i < index + count → body i (states i) = .ok (states (i + 1))) :
    forRange body index count (states index) = .ok (states (index + count)) := by
  induction count generalizing index with
  | zero => rfl
  | succ count ih =>
    rw [forRange,turn index (Nat.le_refl _) (by omega)]
    have rest := ih (index + 1) fun i low high => turn i (by omega) (by omega)
    rwa [show index + 1 + count = index + (count + 1) by omega] at rest

end Ends

section Slots
variable {T : Type}

-- The first slots hold these values, the others nothing.
def filled (values : List T) (index : Nat) : Slot T := (values[index]?).elim .raw .live

theorem filled_live {values : List T} (here : values[index]? = some value) : filled values index = .live value := by
  rw [filled,here]
  rfl

theorem filled_raw {values : List T} (past : values.length ≤ index) : filled values index = .raw := by
  rw [filled,List.getElem?_eq_none past]
  rfl

theorem filled_nil : filled ([] : List T) = fun _ => .raw := by
  funext index
  exact filled_raw (Nat.zero_le _)

theorem filled_snoc (values : List T) (value : T) :
    update (filled values) values.length (.live value) = filled (values ++ [value]) := by
  funext index
  rcases Nat.lt_trichotomy index values.length with before | rfl | after
  · rw [update_of_ne (by omega),filled,filled,List.getElem?_append_left before]
  · rw [update_self]
    exact (filled_live (by simp)).symm
  · rw [update_of_ne (by omega),filled_raw (by omega),filled_raw (by simp; omega)]

theorem filled_take {values : List T} (here : values[index]? = some value) :
    update (filled (values.take index)) index (.live value) = filled (values.take (index + 1)) := by
  obtain ⟨inside,_⟩ := List.getElem?_eq_some_iff.mp here
  have snoc := filled_snoc (values.take index) value
  rw [List.length_take,Nat.min_eq_left (by omega)] at snoc
  rw [snoc,List.take_add_one,here]
  rfl

theorem filled_set {values : List T} (inside : index < values.length) (value : T) :
    update (filled values) index (.live value) = filled (values.set index value) := by
  funext i
  by_cases same : i = index
  · subst same
    rw [update_self]
    exact (filled_live (by simp [inside])).symm
  · rw [update_of_ne same,filled,filled,List.getElem?_set_ne (Ne.symm same)]

end Slots

section Primitives
variable {T : Type} {K : Element} {heap : Heap T} {block : Block T}

theorem load_live (here : heap buffer = some block) (live : block.slots index = .live value) :
    load heap buffer index = .ok value := by
  rw [load,here]
  simp only [live]

def Block.with (block : Block T) (slots : Nat → Slot T) : Block T := {block with slots := slots}

theorem with_self : block.with block.slots = block := rfl

-- The memory with one buffer replaced.
def holding (heap : Heap T) (buffer : Nat) (block : Block T) : Heap T := update heap buffer (some block)

theorem holding_here : holding heap buffer block buffer = some block := update_self ..
theorem holding_other (other : c ≠ buffer) : holding heap buffer block c = heap c := update_of_ne other ..
theorem holding_self (here : heap buffer = some block) : holding heap buffer block = heap := by
  rw [holding,← here,update_eq_self]
theorem holding_again (block block' : Block T) : holding (holding heap buffer block) buffer block' = holding heap buffer block' :=
  update_idem ..
theorem holding_comm (other : c ≠ buffer) (block block' : Block T) :
    holding (holding heap buffer block) c block' = holding (holding heap c block') buffer block :=
  (update_comm other ..).symm

theorem store_raw {index : Nat} (here : heap buffer = some block) (room : K.size * (index + 1) ≤ block.bytes)
    (raw : block.slots index = .raw) :
    store K buffer index value heap = .ok (holding heap buffer (block.with (update block.slots index (.live value)))) := by
  rw [store,here]
  simp only [raw]
  rw [if_neg (Int.not_lt.mpr room)]
  rfl

theorem destroy_present (here : heap buffer = some block) (present : block.slots index ≠ .raw) :
    destroy buffer index heap = .ok (holding heap buffer (block.with (update block.slots index .raw))) := by
  rw [destroy,here]
  cases slot : block.slots index with
  | raw => exact absurd slot present
  | moved => simp only [slot]; rfl
  | live value => simp only [slot]; rfl

theorem take_live (here : heap buffer = some block) (live : block.slots index = .live value) :
    take buffer index heap = .ok (value,holding heap buffer (block.with (update block.slots index .moved))) := by
  rw [take,here]
  simp only [live]
  rfl

theorem overwrite_live (here : heap buffer = some block) (live : block.slots index = .live old) (value : T) :
    overwrite buffer index value heap = .ok (holding heap buffer (block.with (update block.slots index (.live value)))) := by
  rw [overwrite,here]
  simp only [live]
  rfl

-- Moved out and destroyed.
theorem take_destroy (here : heap buffer = some block) (live : block.slots index = .live value) :
    ∃ moved, take buffer index heap = .ok (value,moved) ∧
      destroy buffer index moved = .ok (holding heap buffer (block.with (update block.slots index .raw))) := by
  refine ⟨_,take_live here live,?_⟩
  rw [destroy_present holding_here (by simp [Block.with]),holding_again]
  simp [Block.with]

end Primitives

section Loops
variable {T : Type} {K : Element} {heap : Heap T} {values : List T} {block : Block T}

-- What is left of the values once those before an index are gone.
def emptied (values : List T) (upto index : Nat) : Slot T := if index < upto then .raw else filled values index

theorem emptied_none : emptied values 0 = filled values := by
  funext index
  exact if_neg (Nat.not_lt_zero _)

theorem emptied_step (upto : Nat) : update (emptied values upto) upto .raw = emptied values (upto + 1) := by
  funext index
  rcases Nat.lt_trichotomy index upto with before | rfl | after
  · rw [update_of_ne (by omega),emptied,emptied,if_pos before,if_pos (by omega)]
  · rw [update_self,emptied,if_pos (by omega)]
  · rw [update_of_ne (by omega),emptied,emptied,if_neg (by omega),if_neg (by omega)]

theorem emptied_all : emptied values values.length = fun _ => .raw := by
  funext index
  by_cases before : index < values.length
  · exact if_pos before
  · rw [emptied,if_neg before,filled_raw (by omega)]

theorem emptied_live (here : values[upto]? = some value) : emptied values upto upto = .live value := by
  rw [emptied,if_neg (Nat.lt_irrefl _),filled_live here]

theorem nth_value (inside : index < values.length) : ∃ value, values[index]? = some value :=
  ⟨_,List.getElem?_eq_getElem inside⟩

theorem destroy_all (here : heap buffer = some block) (full : block.slots = filled values) :
    forRange (destroy buffer) 0 values.length heap = .ok (holding heap buffer (block.with fun _ => .raw)) := by
  have loop := range_follows (destroy buffer) 0 values.length
    (fun i => holding heap buffer (block.with (emptied values i))) fun i _ inside => by
      obtain ⟨value,nth⟩ := nth_value (show i < values.length by omega)
      rw [destroy_present holding_here (by simp [Block.with,emptied_live nth]),holding_again]
      exact congrArg (fun slots => Except.ok (holding heap buffer (block.with slots))) (emptied_step i)
  rw [Nat.zero_add,emptied_all,emptied_none,← full,with_self,holding_self here] at loop
  exact loop

theorem room_for {size i n : Nat} {bytes : Int} (inside : i < n) (room : (size : Int) * n ≤ bytes) :
    (size : Int) * (i + 1) ≤ bytes := by
  have inside : (i : Int) + 1 ≤ n := by omega
  have size : (0 : Int) ≤ size := by omega
  nlinarith

-- Values that are read elsewhere, constructed one after the other.
theorem store_all {read : Nat → Heap T → Except Stop T}
    (nth : ∀ i value middle, values[i]? = some value → (∀ c, c ≠ buffer → middle c = heap c) → read i middle = .ok value)
    (fresh : heap buffer = some block) (raw : block.slots = fun _ => .raw) (room : K.size * values.length ≤ block.bytes) :
    forRange (fun i heap => (read i heap).bind fun value => store K buffer i value heap) 0 values.length heap =
      .ok (holding heap buffer (block.with (filled values))) := by
  have loop := range_follows (fun i heap => (read i heap).bind fun value => store K buffer i value heap) 0 values.length
    (fun i => holding heap buffer (block.with (filled (values.take i)))) fun i _ inside => by
      obtain ⟨value,here⟩ := nth_value (show i < values.length by omega)
      have fits := room_for (i := i) (by omega) room
      have middle : holding heap buffer (block.with (filled (values.take i))) buffer =
          some (block.with (filled (values.take i))) := holding_here
      have stored : store K buffer i value _ = .ok _ := store_raw middle fits (filled_raw (by simp))
      rw [nth i value _ here fun c other => holding_other other]
      refine stored.trans ?_
      rw [holding_again]
      exact congrArg (fun slots => Except.ok (holding heap buffer (block.with slots))) (filled_take here)
  rw [Nat.zero_add,List.take_length,List.take_zero,filled_nil,← raw,with_self,holding_self fresh] at loop
  exact loop

theorem relocate_step {old new : Block T} (apart : source ≠ target) (here : heap source = some old)
    (live : old.slots index = .live value) (there : heap target = some new)
    (room : K.size * (index + 1) ≤ new.bytes) (raw : new.slots index = .raw) (owned : K.trivial = false) :
    relocate K source target index heap = .ok (holding (holding heap source (old.with (update old.slots index .raw))) target
      (new.with (update new.slots index (.live value)))) := by
  let moved := old.with (update old.slots index .moved)
  have still : holding heap source moved target = some new := by rw [holding_other apart.symm,there]
  have left : holding (holding heap source moved) target (new.with (update new.slots index (.live value))) source =
      some moved := by rw [holding_other apart,holding_here]
  rw [relocate,owned,if_neg (by simp),take_live here live]
  show (store K target index value (holding heap source moved)).bind _ = _
  rw [store_raw still room raw]
  show destroy source index _ = _
  rw [destroy_present left (by simp [moved,Block.with]),holding_comm apart,holding_again]
  simp [moved,Block.with]

-- The elements move over one by one; bitwise copies leave theirs behind.
theorem relocate_all {old new : Block T} (apart : source ≠ target) (here : heap source = some old)
    (full : old.slots = filled values) (there : heap target = some new) (raw : new.slots = fun _ => .raw)
    (room : K.size * values.length ≤ new.bytes) : ∃ slots,
    forRange (relocate K source target) 0 values.length heap =
        .ok (holding (holding heap source (old.with slots)) target (new.with (filled values))) ∧
      (K.trivial = false → slots = fun _ => .raw) := by
  cases owned : K.trivial with
  | true =>
    have copies : relocate K source target = fun i (middle : Heap T) =>
        (load middle source i).bind fun value => store K target i value middle := by
      funext i middle
      rw [relocate,owned,if_pos rfl]
    refine ⟨filled values,?_,by simp⟩
    rw [copies,store_all (fun i value middle nth others => ?_) there raw room,← full,with_self,holding_self here]
    rw [load,others source apart,here]
    simp only [full,filled_live nth]
  | false =>
    have loop := range_follows (relocate K source target) 0 values.length
      (fun i => holding (holding heap source (old.with (emptied values i))) target (new.with (filled (values.take i))))
      fun i _ inside => by
        obtain ⟨value,nth⟩ := nth_value (show i < values.length by omega)
        have left : holding (holding heap source (old.with (emptied values i))) target (new.with (filled (values.take i)))
            source = some (old.with (emptied values i)) := by rw [holding_other apart,holding_here]
        have right : holding (holding heap source (old.with (emptied values i))) target (new.with (filled (values.take i)))
            target = some (new.with (filled (values.take i))) := holding_here
        rw [relocate_step apart left (emptied_live nth) right (room_for (show i < values.length by omega) room)
          (filled_raw (by simp)) owned,holding_comm apart.symm,holding_again,holding_comm apart,holding_again]
        show Except.ok (holding (holding heap source (old.with (update (emptied values i) i .raw))) target
          (new.with (update (filled (values.take i)) i (.live value)))) = _
        rw [emptied_step,filled_take nth]
    have start : holding (holding heap source (old.with (emptied values 0))) target (new.with (filled (values.take 0))) =
        heap := by
      rw [emptied_none,← full,with_self,holding_self here,List.take_zero,filled_nil,← raw,with_self,holding_self there]
    refine ⟨fun _ => .raw,?_,fun _ => rfl⟩
    rw [start,Nat.zero_add,List.take_length,emptied_all] at loop
    exact loop

-- The elements from the second on, up to an index, one place forward.
def shifted (values : List T) (upto index : Nat) : Slot T :=
  if index + 1 < upto then filled values (index + 1) else if index + 1 = upto then .raw else filled values index

theorem shifted_first : shifted values 1 = update (filled values) 0 .raw := by
  funext index
  cases index with
  | zero => rw [shifted,if_neg (by omega),if_pos rfl,update_self]
  | succ index => rw [shifted,if_neg (by omega),if_neg (by omega),update_of_ne (by omega)]

theorem shifted_all : shifted values values.length = filled values.tail := by
  funext index
  simp only [shifted,filled,List.getElem?_tail]
  split
  · rfl
  · split
    · rw [List.getElem?_eq_none (by omega)]
      rfl
    · rw [List.getElem?_eq_none (by omega),List.getElem?_eq_none (by omega)]

theorem shifted_step (upto : Nat) (nth : values[upto + 1]? = some value) :
    update (update (update (shifted values (upto + 1)) (upto + 1) .moved) upto (.live value)) (upto + 1) .raw =
      shifted values (upto + 2) := by
  funext index
  by_cases next : index = upto + 1
  · subst next
    rw [update_self,shifted,if_neg (by omega),if_pos rfl]
  · rw [update_of_ne next]
    by_cases here : index = upto
    · subst here
      rw [update_self,shifted,if_pos (by omega),filled_live nth]
    · rw [update_of_ne here,update_of_ne next,shifted,shifted]
      by_cases before : index + 1 < upto + 1
      · rw [if_pos before,if_pos (by omega)]
      · rw [if_neg before,if_neg (by omega),if_neg (by omega),if_neg (by omega)]

theorem shift_all (here : heap buffer = some block) (gone : block.slots = shifted values 1)
    (room : K.size * values.length ≤ block.bytes) (first : 0 < values.length) :
    forRange (fun index heap => (take buffer index heap).bind fun (value,heap) =>
        (store K buffer (index - 1) value heap).bind fun heap => destroy buffer index heap) 1 (values.length - 1) heap =
      .ok (holding heap buffer (block.with (filled values.tail))) := by
  have loop := range_follows (fun index heap => (take buffer index heap).bind fun (value,heap) =>
      (store K buffer (index - 1) value heap).bind fun heap => destroy buffer index heap) 1 (values.length - 1)
    (fun i => holding heap buffer (block.with (shifted values i))) fun i low inside => by
      obtain ⟨j,rfl⟩ : ∃ j, i = j + 1 := ⟨i - 1,by omega⟩
      obtain ⟨value,nth⟩ := nth_value (show j + 1 < values.length by omega)
      let moved := block.with (update (shifted values (j + 1)) (j + 1) .moved)
      let filled_ := block.with (update moved.slots j (.live value))
      have start : holding heap buffer (block.with (shifted values (j + 1))) buffer =
          some (block.with (shifted values (j + 1))) := holding_here
      have live : shifted values (j + 1) (j + 1) = .live value := by
        rw [shifted,if_neg (by omega),if_neg (by omega),filled_live nth]
      have middle : holding heap buffer moved buffer = some moved := holding_here
      have hole : moved.slots j = .raw := by
        show update (shifted values (j + 1)) (j + 1) .moved j = .raw
        rw [update_of_ne (by omega),shifted,if_neg (by omega),if_pos rfl]
      have late : holding heap buffer filled_ buffer = some filled_ := holding_here
      show (take buffer (j + 1) _).bind _ = _
      rw [take_live start live,holding_again]
      show (store K buffer j value (holding heap buffer moved)).bind _ = _
      rw [store_raw middle (room_for (show j < values.length by omega) room) hole,holding_again]
      show destroy buffer (j + 1) (holding heap buffer filled_) = _
      rw [destroy_present late (by simp [filled_,moved,Block.with]),holding_again]
      exact congrArg (fun slots => Except.ok (holding heap buffer (block.with slots))) (shifted_step j nth)
  rw [show 1 + (values.length - 1) = values.length by omega,shifted_all,← gone,with_self,holding_self here] at loop
  exact loop

end Loops

end ArrayLifetimes
