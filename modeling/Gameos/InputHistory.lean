import Mathlib.Algebra.Order.Ring.Int
import Gameos.InputEvents

-- What the events, frames and polls since reset say of the input state.
namespace Input

def Call.submitted : Call → Option Event
  | .submit_event event => some event
  | _ => none

-- The events submitted, accepted or not.
def submitted (calls : List Call) : List Event := calls.filterMap Call.submitted

-- What an event says of a key, and of a button: down, up, or nothing.
def key_change (key : Key) : Event → Option Bool
  | .key_down event => if event.key = key then some true else none
  | .key_up event => if event.key = key then some false else none
  | _ => none

def button_change (button : Mouse_Button) : Event → Option Bool
  | .mouse_button_down pressed => if pressed = button then some true else none
  | .mouse_button_up released => if released = button then some false else none
  | _ => none

-- The last of the events that says something decides.
def held (change : Event → Option Bool) (events : List Event) : Bool :=
  ((events.filterMap change).getLast?).getD false

-- Among the events of an interval there is one of this kind, given all the events
-- before it since reset.
def Occurs (kind : Event → List Event → Prop) (before interval : List Event) : Prop :=
  ∃ earlier event later, interval = earlier ++ event :: later ∧ kind event (before ++ earlier)

def Turns (change : Event → Option Bool) (down : Bool) (event : Event) (past : List Event) : Prop :=
  change event = some down ∧ held change past = !down

def Repeats (key : Key) (event : Event) (past : List Event) : Prop :=
  event = .key_down ⟨key,true⟩ ∧ held (key_change key) past = true

def motion : Event → Mouse_Delta
  | .mouse_motion motion => motion
  | _ => ⟨0,0⟩

def wheel : Event → Mouse_Delta
  | .mouse_wheel wheel => wheel
  | _ => ⟨0,0⟩

def total (part : Event → Int) (events : List Event) : Int := (events.map part).sum

def FitsS32 (value : Int) : Prop := -2147483648 ≤ value ∧ value < 2147483648

-- The calls up to the last begin_frame: `interval` are those between it and the
-- begin_frame before, or the reset, `since` the ones during the frame.
structure Frame (calls before interval since : List Call) : Prop where
  split : calls = before ++ interval ++ .begin_frame :: since
  opened : before = [] ∨ ∃ earlier, before = earlier ++ [.begin_frame]
  closed : .begin_frame ∉ interval
  current : .begin_frame ∉ since

-- What the frame shows of its interval.
structure Shows (s : State) (before interval : List Event) : Prop where
  pressed : ∀ key, key ≠ .unknown →
    (key_pressed s key = true ↔ Occurs (Turns (key_change key) true) before interval)
  released : ∀ key, key ≠ .unknown →
    (key_released s key = true ↔ Occurs (Turns (key_change key) false) before interval)
  repeated : ∀ key, key ≠ .unknown → (key_repeated s key = true ↔ Occurs (Repeats key) before interval)
  button_pressed : ∀ button,
    mouse_button_pressed s button = true ↔ Occurs (Turns (button_change button) true) before interval
  button_released : ∀ button,
    mouse_button_released s button = true ↔ Occurs (Turns (button_change button) false) before interval
  motion_x : FitsS32 (total (fun e => (motion e).x) interval) →
    (mouse_motion s).x = total (fun e => (motion e).x) interval
  motion_y : FitsS32 (total (fun e => (motion e).y) interval) →
    (mouse_motion s).y = total (fun e => (motion e).y) interval
  wheel_x : FitsS32 (total (fun e => (wheel e).x) interval) →
    (mouse_wheel s).x = total (fun e => (wheel e).x) interval
  wheel_y : FitsS32 (total (fun e => (wheel e).y) interval) →
    (mouse_wheel s).y = total (fun e => (wheel e).y) interval

-- The queue as its users see it. An event is rejected when as many accepted ones as
-- the queue holds have not been polled.
structure Ledger where
  accepted : List Event
  polled : Nat
  rejected : Nat

def Ledger.record (ledger : Ledger) : Call → Ledger
  | .submit_event event =>
    if ledger.accepted.length - ledger.polled = EVENT_QUEUE_CAPACITY then {ledger with rejected := ledger.rejected + 1}
    else {ledger with accepted := ledger.accepted ++ [event]}
  | .begin_frame => ledger
  | .poll_event => if ledger.polled < ledger.accepted.length then {ledger with polled := ledger.polled + 1} else ledger

def ledger (calls : List Call) : Ledger := calls.foldl Ledger.record ⟨[],0,0⟩

-- The events that polls have returned.
def present (results : List Poll_Result) : List Event :=
  (results.filter Poll_Result.is_present).map Poll_Result.event

-- The state after the calls, and the results of the polls among them, are those of
-- the history. Rejecting an event changes nothing but the count.
structure Refines (calls : List Call) (results : List Poll_Result) (s : State) : Prop where
  key_held : ∀ key, key ≠ .unknown → key_held s key = held (key_change key) (submitted calls)
  button_held : ∀ button, mouse_button_held s button = held (button_change button) (submitted calls)
  frame : ∀ before interval since, Frame calls before interval since →
    Shows s (submitted before) (submitted interval)
  polls : present results = (ledger calls).accepted.take (ledger calls).polled
  next_poll : ∃ event after, poll_event s =
      some (⟨event,decide ((ledger calls).polled < (ledger calls).accepted.length)⟩,after) ∧
    ((ledger calls).polled < (ledger calls).accepted.length →
      (ledger calls).accepted[(ledger calls).polled]? = some event)
  rejects : s.events.full = true ↔ (ledger calls).accepted.length - (ledger calls).polled = EVENT_QUEUE_CAPACITY
  dropped : dropped_event_count s = u64 (ledger calls).rejected
  unaffected : ∀ event other rejected accepted, s.events.full = true → other.full = false →
    submit_event s event = some rejected → submit_event {s with events := other} event = some accepted →
    rejected = {accepted with events := s.events, dropped_event_count := u64 (s.dropped_event_count + 1)}

theorem submitted_append (one two : List Call) : submitted (one ++ two) = submitted one ++ submitted two :=
  List.filterMap_append

theorem held_snoc (change : Event → Option Bool) (events : List Event) (event : Event) :
    held change (events ++ [event]) = (change event).getD (held change events) := by
  unfold held
  rw [List.filterMap_append]
  cases said : change event with
  | none => simp [said]
  | some down => simp [said]

theorem occurs_nil (kind : Event → List Event → Prop) (before : List Event) : ¬ Occurs kind before [] := by
  intro ⟨earlier,event,later,split,_⟩
  cases earlier <;> cases split

theorem occurs_snoc {kind : Event → List Event → Prop} :
    Occurs kind before (interval ++ [event]) ↔ Occurs kind before interval ∨ kind event (before ++ interval) := by
  constructor
  · intro ⟨earlier,found,later,split,here⟩
    rcases List.eq_nil_or_concat later with rfl | ⟨later,last,rfl⟩
    · obtain ⟨rfl,same⟩ := List.append_inj' split rfl
      cases same
      exact .inr here
    · left
      rw [List.concat_eq_append,← List.cons_append,← List.append_assoc] at split
      obtain ⟨rfl,_⟩ := List.append_inj' split rfl
      exact ⟨earlier,found,later,rfl,here⟩
  · rintro (⟨earlier,found,later,rfl,here⟩ | here)
    · exact ⟨earlier,found,later ++ [event],by simp,here⟩
    · exact ⟨interval,event,[],rfl,here⟩

theorem total_snoc (part : Event → Int) (events : List Event) (event : Event) :
    total part (events ++ [event]) = total part events + part event := by
  simp [total]

theorem s32_fits (fits : FitsS32 value) : s32 value = value := by
  unfold FitsS32 at fits
  unfold s32
  exact Int.bmod_eq_of_le (by omega) (by omega)

theorem s32_sum (sum part : Int) : s32 (s32 sum + part) = s32 (sum + part) := Int.bmod_add_bmod

-- What the five arrays and the two sums of an interval hold.
structure Describes (pressed released repeated : Key → Bool) (button_pressed button_released : Mouse_Button → Bool)
    (moved wheeled : Mouse_Delta) (before interval : List Event) : Prop where
  pressed : ∀ key, key ≠ .unknown → (pressed key = true ↔ Occurs (Turns (key_change key) true) before interval)
  released : ∀ key, key ≠ .unknown → (released key = true ↔ Occurs (Turns (key_change key) false) before interval)
  repeated : ∀ key, key ≠ .unknown → (repeated key = true ↔ Occurs (Repeats key) before interval)
  button_pressed : ∀ button, button_pressed button = true ↔ Occurs (Turns (button_change button) true) before interval
  button_released : ∀ button, button_released button = true ↔ Occurs (Turns (button_change button) false) before interval
  moved : moved = ⟨s32 (total (fun e => (motion e).x) interval),s32 (total (fun e => (motion e).y) interval)⟩
  wheeled : wheeled = ⟨s32 (total (fun e => (wheel e).x) interval),s32 (total (fun e => (wheel e).y) interval)⟩

abbrev Collects (s : State) (before interval : List Event) : Prop :=
  Describes s.next_frame_pressed s.next_frame_released s.next_frame_repeated s.next_frame_button_pressed
    s.next_frame_button_released s.next_frame_motion s.next_frame_wheel before interval

abbrev Displays (s : State) (before interval : List Event) : Prop :=
  Describes s.frame_pressed s.frame_released s.frame_repeated s.frame_button_pressed
    s.frame_button_released s.frame_motion s.frame_wheel before interval

theorem Describes.nothing (before : List Event) :
    Describes cleared cleared cleared cleared cleared ⟨0,0⟩ ⟨0,0⟩ before [] := by
  refine ⟨?_,?_,?_,?_,?_,rfl,rfl⟩
  all_goals
    intros
    exact ⟨fun wrong => absurd wrong Bool.false_ne_true,fun occurs => absurd occurs (occurs_nil _ _)⟩

theorem Describes.shows {s : State} (displays : Displays s before interval) : Shows s before interval where
  pressed := displays.pressed
  released := displays.released
  repeated := displays.repeated
  button_pressed := displays.button_pressed
  button_released := displays.button_released
  motion_x fits := (congrArg Mouse_Delta.x displays.moved).trans (s32_fits fits)
  motion_y fits := (congrArg Mouse_Delta.y displays.moved).trans (s32_fits fits)
  wheel_x fits := (congrArg Mouse_Delta.x displays.wheeled).trans (s32_fits fits)
  wheel_y fits := (congrArg Mouse_Delta.y displays.wheeled).trans (s32_fits fits)

section Notes
variable (s : State)

-- submit_key changes four arrays, submit_mouse_button three.
theorem submit_key_rest (event : Event_Key) (is_down : Bool) : ∃ keys pressed released repeated,
    submit_key s event is_down = {s with
      keys := keys, next_frame_pressed := pressed, next_frame_released := released, next_frame_repeated := repeated} := by
  unfold submit_key
  by_cases unknown : event.key = .unknown
  · rw [if_pos unknown]
    exact ⟨_,_,_,_,rfl⟩
  · rw [if_neg unknown]
    cases is_down <;> cases s.keys event.key <;> cases event.is_repeat <;> exact ⟨_,_,_,_,rfl⟩

theorem submit_mouse_button_rest (button : Mouse_Button) (is_down : Bool) : ∃ buttons pressed released,
    submit_mouse_button s button is_down = {s with
      mouse_buttons := buttons, next_frame_button_pressed := pressed, next_frame_button_released := released} := by
  unfold submit_mouse_button
  cases is_down <;> cases s.mouse_buttons button <;> exact ⟨_,_,_,rfl⟩

theorem note_rest (event : Event) :
    (note s event).events = s.events ∧ (note s event).dropped_event_count = s.dropped_event_count := by
  cases event with
  | key_down event | key_up event =>
      rw [note]
      obtain ⟨_,_,_,_,same⟩ := submit_key_rest s event _
      rw [same]
      exact ⟨rfl,rfl⟩
  | mouse_button_down button | mouse_button_up button =>
      rw [note]
      obtain ⟨_,_,_,same⟩ := submit_mouse_button_rest s button _
      rw [same]
      exact ⟨rfl,rfl⟩
  | mouse_motion motion | mouse_wheel wheel => exact ⟨rfl,rfl⟩

theorem note_displays (event : Event) (displays : Displays s before interval) :
    Displays (note s event) before interval := by
  cases event with
  | key_down event | key_up event =>
      rw [note]
      obtain ⟨_,_,_,_,same⟩ := submit_key_rest s event _
      rw [same]
      exact displays
  | mouse_button_down button | mouse_button_up button =>
      rw [note]
      obtain ⟨_,_,_,same⟩ := submit_mouse_button_rest s button _
      rw [same]
      exact displays
  | mouse_motion motion | mouse_wheel wheel => exact displays

end Notes

section Keys
variable (s : State) {key : Key} (known : key ≠ .unknown)

-- What submit_key does to the arrays at one key.
theorem submit_key_other (event : Event_Key) (is_down : Bool) (other : event.key ≠ key) :
    (submit_key s event is_down).keys key = s.keys key ∧
      (submit_key s event is_down).next_frame_pressed key = s.next_frame_pressed key ∧
      (submit_key s event is_down).next_frame_released key = s.next_frame_released key ∧
      (submit_key s event is_down).next_frame_repeated key = s.next_frame_repeated key := by
  have apart : ¬ key = event.key := fun same => other same.symm
  unfold submit_key put
  by_cases unknown : event.key = .unknown
  · rw [if_pos unknown]
    exact ⟨rfl,rfl,rfl,rfl⟩
  · rw [if_neg unknown]
    cases is_down <;> cases s.keys event.key <;> cases event.is_repeat <;> simp [apart]

include known in
theorem submit_key_same (is_repeat is_down : Bool) :
    (submit_key s ⟨key,is_repeat⟩ is_down).keys key = is_down ∧
      (submit_key s ⟨key,is_repeat⟩ is_down).next_frame_pressed key =
        (s.next_frame_pressed key || (is_down && !s.keys key)) ∧
      (submit_key s ⟨key,is_repeat⟩ is_down).next_frame_released key =
        (s.next_frame_released key || (!is_down && s.keys key)) ∧
      (submit_key s ⟨key,is_repeat⟩ is_down).next_frame_repeated key =
        (s.next_frame_repeated key || (is_repeat && is_down && s.keys key)) := by
  unfold submit_key put
  dsimp only
  rw [if_neg known]
  cases is_down <;> cases was : s.keys key <;> cases is_repeat <;> simp

include known in
theorem note_key (event : Event) :
    (note s event).keys key = (key_change key event).getD (s.keys key) ∧
      ((note s event).next_frame_pressed key = true ↔
        s.next_frame_pressed key = true ∨ key_change key event = some true ∧ s.keys key = false) ∧
      ((note s event).next_frame_released key = true ↔
        s.next_frame_released key = true ∨ key_change key event = some false ∧ s.keys key = true) ∧
      ((note s event).next_frame_repeated key = true ↔
        s.next_frame_repeated key = true ∨ event = .key_down ⟨key,true⟩ ∧ s.keys key = true) := by
  cases event with
  | key_down event =>
      rw [note]
      by_cases same : event.key = key
      · obtain ⟨_,is_repeat⟩ := event
        subst same
        obtain ⟨keys,pressed,released,repeated⟩ := submit_key_same s known is_repeat true
        rw [keys,pressed,released,repeated]
        simp [key_change]
      · obtain ⟨keys,pressed,released,repeated⟩ := submit_key_other s event true same
        rw [keys,pressed,released,repeated]
        have another : event ≠ ⟨key,true⟩ := fun equal => same (congrArg Event_Key.key equal)
        simp [key_change,same,another]
  | key_up event =>
      rw [note]
      by_cases same : event.key = key
      · obtain ⟨_,is_repeat⟩ := event
        subst same
        obtain ⟨keys,pressed,released,repeated⟩ := submit_key_same s known is_repeat false
        rw [keys,pressed,released,repeated]
        simp [key_change]
      · obtain ⟨keys,pressed,released,repeated⟩ := submit_key_other s event false same
        rw [keys,pressed,released,repeated]
        simp [key_change,same]
  | mouse_button_down button | mouse_button_up button =>
      rw [note]
      obtain ⟨_,_,_,same⟩ := submit_mouse_button_rest s button _
      rw [same]
      simp [key_change]
  | mouse_motion motion | mouse_wheel wheel => simp [note,key_change]

end Keys

section Buttons
variable (s : State) (button : Mouse_Button)

theorem submit_mouse_button_at (submitted : Mouse_Button) (is_down : Bool) :
    (submit_mouse_button s submitted is_down).mouse_buttons button =
        (if submitted = button then is_down else s.mouse_buttons button) ∧
      ((submit_mouse_button s submitted is_down).next_frame_button_pressed button = true ↔
        s.next_frame_button_pressed button = true ∨
          submitted = button ∧ is_down = true ∧ s.mouse_buttons button = false) ∧
      ((submit_mouse_button s submitted is_down).next_frame_button_released button = true ↔
        s.next_frame_button_released button = true ∨
          submitted = button ∧ is_down = false ∧ s.mouse_buttons button = true) := by
  unfold submit_mouse_button put
  by_cases same : submitted = button
  · subst same
    cases is_down <;> cases s.mouse_buttons submitted <;> simp
  · have apart : ¬ button = submitted := fun equal => same equal.symm
    cases is_down <;> cases s.mouse_buttons submitted <;> simp [same,apart]

theorem note_button (event : Event) :
    (note s event).mouse_buttons button = (button_change button event).getD (s.mouse_buttons button) ∧
      ((note s event).next_frame_button_pressed button = true ↔
        s.next_frame_button_pressed button = true ∨ button_change button event = some true ∧ s.mouse_buttons button = false) ∧
      ((note s event).next_frame_button_released button = true ↔
        s.next_frame_button_released button = true ∨ button_change button event = some false ∧ s.mouse_buttons button = true) := by
  cases event with
  | mouse_button_down submitted | mouse_button_up submitted =>
      rw [note]
      obtain ⟨buttons,pressed,released⟩ := submit_mouse_button_at s button submitted _
      rw [buttons,pressed,released]
      by_cases same : submitted = button <;> simp [button_change,same]
  | key_down event | key_up event =>
      rw [note]
      obtain ⟨_,_,_,_,same⟩ := submit_key_rest s event _
      rw [same]
      simp [button_change]
  | mouse_motion motion | mouse_wheel wheel => simp [note,button_change]

end Buttons

theorem note_motion (s : State) (event : Event) (moved : s.next_frame_motion = ⟨s32 a,s32 b⟩) :
    (note s event).next_frame_motion = ⟨s32 (a + (motion event).x),s32 (b + (motion event).y)⟩ := by
  cases event with
  | mouse_motion delta =>
      rw [note]
      simp only [moved,Mouse_Delta.add,s32_sum]
      rfl
  | key_down event | key_up event =>
      rw [note]
      obtain ⟨_,_,_,_,same⟩ := submit_key_rest s event _
      rw [same]
      simpa [motion] using moved
  | mouse_button_down button | mouse_button_up button =>
      rw [note]
      obtain ⟨_,_,_,same⟩ := submit_mouse_button_rest s button _
      rw [same]
      simpa [motion] using moved
  | mouse_wheel wheel => simpa [note,motion] using moved

theorem note_wheel (s : State) (event : Event) (wheeled : s.next_frame_wheel = ⟨s32 a,s32 b⟩) :
    (note s event).next_frame_wheel = ⟨s32 (a + (wheel event).x),s32 (b + (wheel event).y)⟩ := by
  cases event with
  | mouse_wheel delta =>
      rw [note]
      simp only [wheeled,Mouse_Delta.add,s32_sum]
      rfl
  | key_down event | key_up event =>
      rw [note]
      obtain ⟨_,_,_,_,same⟩ := submit_key_rest s event _
      rw [same]
      simpa [wheel] using wheeled
  | mouse_button_down button | mouse_button_up button =>
      rw [note]
      obtain ⟨_,_,_,same⟩ := submit_mouse_button_rest s button _
      rw [same]
      simpa [wheel] using wheeled
  | mouse_motion motion => simpa [note,wheel] using wheeled

-- One more event in the running interval.
theorem note_collects {s : State} (event : Event)
    (keys : ∀ key, key ≠ .unknown → s.keys key = held (key_change key) (before ++ interval))
    (buttons : ∀ button, s.mouse_buttons button = held (button_change button) (before ++ interval))
    (collects : Collects s before interval) : Collects (note s event) before (interval ++ [event]) where
  pressed key known := by
    rw [(note_key s known event).2.1,collects.pressed key known,occurs_snoc,keys key known]
    rfl
  released key known := by
    rw [(note_key s known event).2.2.1,collects.released key known,occurs_snoc,keys key known]
    rfl
  repeated key known := by
    rw [(note_key s known event).2.2.2,collects.repeated key known,occurs_snoc,keys key known]
    rfl
  button_pressed button := by
    rw [(note_button s button event).2.1,collects.button_pressed button,occurs_snoc,buttons button]
    rfl
  button_released button := by
    rw [(note_button s button event).2.2,collects.button_released button,occurs_snoc,buttons button]
    rfl
  moved := by
    rw [total_snoc,total_snoc]
    exact note_motion s event collects.moved
  wheeled := by
    rw [total_snoc,total_snoc]
    exact note_wheel s event collects.wheeled

theorem ledger_snoc (calls : List Call) (call : Call) : ledger (calls ++ [call]) = (ledger calls).record call := by
  simp [ledger]

-- What the queue holds is what is accepted and not polled.
structure Queues (s : State) (ledger : Ledger) : Prop where
  bounded : ledger.polled ≤ ledger.accepted.length
  contents : s.events.contents = ledger.accepted.drop ledger.polled
  dropped : s.dropped_event_count = u64 ledger.rejected

section Queue
variable {s : State} {book : Ledger}

theorem Queues.length (queues : Queues s book) : s.events.contents.length = book.accepted.length - book.polled := by
  rw [queues.contents,List.length_drop]

theorem Queues.full (queues : Queues s book) :
    s.events.full = true ↔ book.accepted.length - book.polled = EVENT_QUEUE_CAPACITY := by
  rw [RingBuffer.full_exact,queues.length]

theorem Queues.empty (queues : Queues s book) : s.events.isEmpty = true ↔ ¬ book.polled < book.accepted.length := by
  rw [RingBuffer.isEmpty_exact,← List.length_eq_zero_iff,queues.length]
  omega

-- An event that finds the queue full is counted; any other goes behind the rest.
theorem submit_event_cases (s : State) (event : Event) :
    (s.events.full = true ∧
      submit_event s event = some {note s event with dropped_event_count := u64 (s.dropped_event_count + 1)}) ∨
    (s.events.full = false ∧ ∃ events, events.contents = s.events.contents ++ [event] ∧
      submit_event s event = some {note s event with events := events}) := by
  obtain ⟨same,count⟩ := note_rest s event
  unfold submit_event
  dsimp only
  rw [same,count]
  cases full : s.events.full with
  | true => exact .inl ⟨rfl,rfl⟩
  | false =>
      cases pushed : s.events.pushBack event with
      | none =>
          rw [RingBuffer.pushBack_full.mp pushed] at full
          cases full
      | some events => exact .inr ⟨rfl,events,RingBuffer.contents_pushBack pushed,rfl⟩

theorem submit_queues (event : Event) (queues : Queues s book) (submits : submit_event s event = some after) :
    Queues after (book.record (.submit_event event)) := by
  rcases submit_event_cases s event with ⟨full,same⟩ | ⟨room,events,contents,same⟩
  · rw [same] at submits
    cases submits
    rw [Ledger.record,if_pos (queues.full.mp full)]
    refine ⟨queues.bounded,?_,?_⟩
    · exact (congrArg RingBuffer.contents (note_rest s event).1).trans queues.contents
    · show u64 (s.dropped_event_count + 1) = u64 (book.rejected + 1)
      rw [queues.dropped]
      exact Nat.mod_add_mod _ _ _
  · rw [same] at submits
    cases submits
    have spare : ¬ book.accepted.length - book.polled = EVENT_QUEUE_CAPACITY := by
      rw [← queues.full,room]
      exact Bool.false_ne_true
    rw [Ledger.record,if_neg spare]
    refine ⟨?_,?_,?_⟩
    · exact queues.bounded.trans (by simp)
    · show events.contents = (book.accepted ++ [event]).drop book.polled
      rw [contents,queues.contents,List.drop_append_of_le_length queues.bounded]
    · exact (note_rest s event).2.trans queues.dropped

-- A poll takes the first accepted event that has not been polled, if there is one.
theorem poll_event_cases (queues : Queues s book) :
    (¬ book.polled < book.accepted.length ∧ poll_event s = some (⟨default,false⟩,s)) ∨
    (book.polled < book.accepted.length ∧ ∃ event events,
      book.accepted.drop book.polled = event :: events.contents ∧
      poll_event s = some (⟨event,true⟩,{s with events := events})) := by
  unfold poll_event
  cases empty : s.events.isEmpty with
  | true => exact .inl ⟨queues.empty.mp empty,rfl⟩
  | false =>
      have waiting : book.polled < book.accepted.length := by
        by_contra none_left
        rw [queues.empty.mpr none_left] at empty
        cases empty
      cases popped : s.events.popFront with
      | none =>
          rw [RingBuffer.popFront_empty.mp popped] at empty
          cases empty
      | some result =>
          obtain ⟨event,events⟩ := result
          refine .inr ⟨waiting,event,events,?_,rfl⟩
          rw [← queues.contents]
          exact RingBuffer.contents_popFront popped

end Queue

theorem drop_next {list : List α} (next : list.drop n = first :: rest) :
    list[n]? = some first ∧ list.take (n + 1) = list.take n ++ [first] ∧ list.drop (n + 1) = rest := by
  have found : list[n]? = some first := by
    rw [← List.head?_drop,next]
    rfl
  refine ⟨found,?_,?_⟩
  · rw [List.take_add_one,found]
    rfl
  · rw [← List.drop_drop,next]
    rfl

theorem present_append (one two : List Poll_Result) : present (one ++ two) = present one ++ present two := by
  simp [present]

-- An interval that is still open: the calls since the last begin_frame or the reset.
structure Open (calls before since : List Call) : Prop where
  split : calls = before ++ since
  opened : before = [] ∨ ∃ earlier, before = earlier ++ [.begin_frame]
  current : .begin_frame ∉ since

structure Tracked (calls : List Call) (results : List Poll_Result) (s : State) : Prop where
  keys : ∀ key, key ≠ .unknown → s.keys key = held (key_change key) (submitted calls)
  buttons : ∀ button, s.mouse_buttons button = held (button_change button) (submitted calls)
  collects : ∀ before since, Open calls before since → Collects s (submitted before) (submitted since)
  displays : ∀ before interval since, Frame calls before interval since →
    Displays s (submitted before) (submitted interval)
  queues : Queues s (ledger calls)
  polls : present results = (ledger calls).accepted.take (ledger calls).polled

theorem cleared_tracked (s : State) : Tracked [] [] (clear_state s) where
  keys _ _ := rfl
  buttons _ := rfl
  collects before since opened := by
    obtain ⟨rfl,rfl⟩ := List.nil_eq_append_iff.mp opened.split
    exact .nothing _
  displays before interval since frame := by
    have length := congrArg List.length frame.split
    simp at length
  queues := ⟨Nat.le_refl _,rfl,rfl⟩
  polls := rfl

-- A call other than begin_frame leaves the intervals as they are, up to its event.
theorem Open.shorter {call : Call} (opened : Open (calls ++ [call]) before since) (same : call ≠ .begin_frame) :
    ∃ earlier, since = earlier ++ [call] ∧ Open calls before earlier := by
  rcases List.eq_nil_or_concat since with rfl | ⟨earlier,last,rfl⟩
  · have split := opened.split
    rw [List.append_nil] at split
    rcases opened.opened with rfl | ⟨earlier,rfl⟩
    · simp at split
    · obtain ⟨_,equal⟩ := List.append_inj' split rfl
      cases equal
      exact absurd rfl same
  · have split := opened.split
    rw [List.concat_eq_append,← List.append_assoc] at split
    obtain ⟨rfl,equal⟩ := List.append_inj' split rfl
    cases equal
    refine ⟨earlier,by simp,rfl,opened.opened,?_⟩
    intro present
    exact opened.current (by simp [present])

theorem Frame.shorter {call : Call} (frame : Frame (calls ++ [call]) before interval since) (same : call ≠ .begin_frame) :
    ∃ earlier, since = earlier ++ [call] ∧ Frame calls before interval earlier := by
  rcases List.eq_nil_or_concat since with rfl | ⟨earlier,last,rfl⟩
  · have split := frame.split
    obtain ⟨_,equal⟩ := List.append_inj' split rfl
    cases equal
    exact absurd rfl same
  · have split := frame.split
    rw [List.concat_eq_append,← List.cons_append,← List.append_assoc] at split
    obtain ⟨rfl,equal⟩ := List.append_inj' split rfl
    cases equal
    refine ⟨earlier,by simp,rfl,frame.opened,frame.closed,?_⟩
    intro present
    exact frame.current (by simp [present])

-- begin_frame closes the open interval.
theorem Open.begun (opened : Open (calls ++ [.begin_frame]) before since) :
    before = calls ++ [.begin_frame] ∧ since = [] := by
  rcases List.eq_nil_or_concat since with rfl | ⟨earlier,last,rfl⟩
  · exact ⟨by simpa using opened.split.symm,rfl⟩
  · have split := opened.split
    rw [List.concat_eq_append,← List.append_assoc] at split
    obtain ⟨_,equal⟩ := List.append_inj' split rfl
    cases equal
    exact absurd (by simp) opened.current

theorem Frame.begun (frame : Frame (calls ++ [.begin_frame]) before interval since) :
    since = [] ∧ Open calls before interval := by
  rcases List.eq_nil_or_concat since with rfl | ⟨earlier,last,rfl⟩
  · obtain ⟨rfl,_⟩ := List.append_inj' frame.split rfl
    exact ⟨rfl,rfl,frame.opened,frame.closed⟩
  · have split := frame.split
    rw [List.concat_eq_append,← List.cons_append,← List.append_assoc] at split
    obtain ⟨_,equal⟩ := List.append_inj' split rfl
    cases equal
    exact absurd (by simp) frame.current

theorem poll_tracked (tracked : Tracked calls results s) (polls : poll_event s = some (result,after)) :
    Tracked (calls ++ [.poll_event]) (results ++ [result]) after := by
  have same : submitted (calls ++ [.poll_event]) = submitted calls := by
    rw [submitted_append]
    exact List.append_nil _
  have quiet : ∀ earlier, submitted (earlier ++ [.poll_event]) = submitted earlier := by
    intro earlier
    rw [submitted_append]
    exact List.append_nil _
  have rest : after = {s with events := after.events} ∧ Queues after ((ledger calls).record .poll_event) ∧
      present (results ++ [result]) =
        ((ledger calls).record .poll_event).accepted.take ((ledger calls).record .poll_event).polled := by
    rcases poll_event_cases tracked.queues with ⟨none_left,here⟩ | ⟨waiting,event,events,next,here⟩
    · rw [here] at polls
      cases polls
      rw [Ledger.record,if_neg none_left]
      refine ⟨rfl,tracked.queues,?_⟩
      rw [present_append,tracked.polls]
      exact List.append_nil _
    · rw [here] at polls
      cases polls
      obtain ⟨_,taken,left⟩ := drop_next next
      rw [Ledger.record,if_pos waiting]
      refine ⟨rfl,⟨waiting,left.symm,tracked.queues.dropped⟩,?_⟩
      rw [present_append,tracked.polls,taken]
      rfl
  obtain ⟨after_same,queues,polled⟩ := rest
  refine ⟨?_,?_,?_,?_,?_,?_⟩
  · rw [after_same,same]
    exact tracked.keys
  · rw [after_same,same]
    exact tracked.buttons
  · intro before since opened
    obtain ⟨earlier,rfl,still⟩ := opened.shorter (by simp)
    rw [after_same,quiet]
    exact tracked.collects before earlier still
  · intro before interval since frame
    obtain ⟨earlier,rfl,still⟩ := frame.shorter (by simp)
    rw [after_same]
    exact tracked.displays before interval earlier still
  · rw [ledger_snoc]
    exact queues
  · rw [ledger_snoc]
    exact polled

theorem begin_tracked (tracked : Tracked calls results s) :
    Tracked (calls ++ [.begin_frame]) results (begin_frame s) := by
  have same : submitted (calls ++ [.begin_frame]) = submitted calls := by
    rw [submitted_append]
    exact List.append_nil _
  refine ⟨?_,?_,?_,?_,?_,?_⟩
  · rw [same]
    exact tracked.keys
  · rw [same]
    exact tracked.buttons
  · intro before since opened
    obtain ⟨_,rfl⟩ := opened.begun
    exact .nothing _
  · intro before interval since frame
    obtain ⟨_,opened⟩ := frame.begun
    exact tracked.collects before interval opened
  · rw [ledger_snoc]
    exact ⟨tracked.queues.bounded,tracked.queues.contents,tracked.queues.dropped⟩
  · rw [ledger_snoc]
    exact tracked.polls

theorem submit_tracked (event : Event) (tracked : Tracked calls results s)
    (submits : submit_event s event = some after) : Tracked (calls ++ [.submit_event event]) results after := by
  have longer : ∀ earlier, submitted (earlier ++ [.submit_event event]) = submitted earlier ++ [event] :=
    fun earlier => submitted_append earlier _
  have noted : ∃ events dropped, after = {note s event with events := events, dropped_event_count := dropped} := by
    rcases submit_event_cases s event with ⟨_,here⟩ | ⟨_,events,_,here⟩
    · rw [here] at submits
      cases submits
      exact ⟨_,_,rfl⟩
    · rw [here] at submits
      cases submits
      exact ⟨_,_,rfl⟩
  have queues := submit_queues event tracked.queues submits
  obtain ⟨events,dropped,rfl⟩ := noted
  refine ⟨?_,?_,?_,?_,?_,?_⟩
  · intro key known
    rw [longer,held_snoc,← tracked.keys key known]
    exact (note_key s known event).1
  · intro button
    rw [longer,held_snoc,← tracked.buttons button]
    exact (note_button s button event).1
  · intro before since opened
    obtain ⟨earlier,rfl,still⟩ := opened.shorter (by simp)
    have split : submitted calls = submitted before ++ submitted earlier := by
      rw [still.split,submitted_append]
    have keys := tracked.keys
    have buttons := tracked.buttons
    rw [split] at keys buttons
    rw [longer]
    exact note_collects event keys buttons (tracked.collects before earlier still)
  · intro before interval since frame
    obtain ⟨earlier,rfl,still⟩ := frame.shorter (by simp)
    exact note_displays s event (tracked.displays before interval earlier still)
  · rw [ledger_snoc]
    exact queues
  · rw [ledger_snoc]
    have polls := tracked.polls
    have bounded := tracked.queues.bounded
    unfold Ledger.record
    dsimp only
    split
    · exact polls
    · exact polls.trans (List.take_append_of_le_length bounded).symm

theorem perform_tracked (call : Call) (tracked : Tracked calls results s) :
    ∃ more after, perform s call = some (more,after) ∧ Tracked (calls ++ [call]) (results ++ more) after := by
  cases call with
  | submit_event event =>
      obtain ⟨after,submits⟩ : ∃ after, submit_event s event = some after := by
        rcases submit_event_cases s event with ⟨_,here⟩ | ⟨_,events,_,here⟩
        · exact ⟨_,here⟩
        · exact ⟨_,here⟩
      refine ⟨[],after,?_,?_⟩
      · rw [perform,submits]
        rfl
      · rw [List.append_nil]
        exact submit_tracked event tracked submits
  | begin_frame =>
      refine ⟨[],begin_frame s,rfl,?_⟩
      rw [List.append_nil]
      exact begin_tracked tracked
  | poll_event =>
      obtain ⟨result,after,polls⟩ : ∃ result after, poll_event s = some (result,after) := by
        rcases poll_event_cases tracked.queues with ⟨_,here⟩ | ⟨_,event,events,_,here⟩
        · exact ⟨_,_,here⟩
        · exact ⟨_,_,here⟩
      refine ⟨[result],after,?_,poll_tracked tracked polls⟩
      rw [perform,polls]
      rfl

theorem run_tracked (more : List Call) (tracked : Tracked calls results s) :
    ∃ later after, run s more = some (later,after) ∧ Tracked (calls ++ more) (results ++ later) after := by
  induction more generalizing calls results s with
  | nil =>
      refine ⟨[],s,rfl,?_⟩
      rw [List.append_nil,List.append_nil]
      exact tracked
  | cons call more ih =>
      obtain ⟨here,middle,performs,tracked⟩ := perform_tracked call tracked
      obtain ⟨later,after,runs,tracked⟩ := ih tracked
      refine ⟨here ++ later,after,?_,?_⟩
      · rw [run,performs,Option.bind_some]
        dsimp only
        rw [runs]
        rfl
      · rw [List.append_assoc,List.append_assoc] at tracked
        exact tracked

theorem note_events (s : State) (event : Event) (other : RingBuffer Event EVENT_QUEUE_CAPACITY) :
    note {s with events := other} event = {note s event with events := other} := by
  cases event with
  | key_down event | key_up event =>
      rw [note,note]
      unfold submit_key
      dsimp only
      by_cases unknown : event.key = .unknown
      · rw [if_pos unknown,if_pos unknown]
      · rw [if_neg unknown,if_neg unknown]
        cases s.keys event.key <;> cases event.is_repeat <;> rfl
  | mouse_button_down button | mouse_button_up button =>
      rw [note,note]
      unfold submit_mouse_button
      dsimp only
      cases s.mouse_buttons button <;> rfl
  | mouse_motion motion | mouse_wheel wheel => rfl

theorem rejected_exact (s : State) (event : Event) (full : s.events.full = true) :
    submit_event s event = some {note s event with dropped_event_count := u64 (s.dropped_event_count + 1)} := by
  rcases submit_event_cases s event with ⟨_,here⟩ | ⟨room,_⟩
  · exact here
  · rw [room] at full
    cases full

theorem Tracked.refines (tracked : Tracked calls results s) : Refines calls results s where
  key_held := tracked.keys
  button_held := tracked.buttons
  frame before interval since frame := (tracked.displays before interval since frame).shows
  polls := tracked.polls
  next_poll := by
    rcases poll_event_cases tracked.queues with ⟨none_left,here⟩ | ⟨waiting,event,events,next,here⟩
    · rw [here,decide_eq_false none_left]
      exact ⟨_,_,rfl,fun waiting => absurd waiting none_left⟩
    · rw [here,decide_eq_true waiting]
      exact ⟨_,_,rfl,fun _ => (drop_next next).1⟩
  rejects := tracked.queues.full
  dropped := tracked.queues.dropped
  unaffected event other rejected accepted full room rejects accepts := by
    rw [rejected_exact s event full,Option.some.injEq] at rejects
    rcases submit_event_cases {s with events := other} event with ⟨full,_⟩ | ⟨_,events,_,here⟩
    · rw [show other.full = true from full] at room
      cases room
    · rw [here,Option.some.injEq] at accepts
      have same := note_events s event other
      generalize note {s with events := other} event = noted at same accepts
      subst same
      rw [← rejects,← accepts,← (note_rest s event).1]

-- The statics before anything has run.
def zeroed : State where
  events := .empty (by decide)
  keys := cleared
  next_frame_pressed := cleared
  next_frame_released := cleared
  next_frame_repeated := cleared
  frame_pressed := cleared
  frame_released := cleared
  frame_repeated := cleared
  mouse_buttons := cleared
  next_frame_button_pressed := cleared
  next_frame_button_released := cleared
  frame_button_pressed := cleared
  frame_button_released := cleared
  next_frame_motion := ⟨0,0⟩
  frame_motion := ⟨0,0⟩
  next_frame_wheel := ⟨0,0⟩
  frame_wheel := ⟨0,0⟩
  dropped_event_count := 0

theorem ledger_filling (event : Event) (n : Nat) (room : n ≤ EVENT_QUEUE_CAPACITY) :
    ledger (List.replicate n (.submit_event event)) = ⟨List.replicate n event,0,0⟩ := by
  induction n with
  | zero => rfl
  | succ n ih =>
      rw [List.replicate_succ',ledger_snoc,ih (by omega),Ledger.record]
      dsimp only
      rw [List.length_replicate,if_neg (by omega),List.replicate_succ']

theorem ledger_overflow (event : Event) (n : Nat) :
    ledger (List.replicate (EVENT_QUEUE_CAPACITY + n) (.submit_event event)) =
      ⟨List.replicate EVENT_QUEUE_CAPACITY event,0,n⟩ := by
  induction n with
  | zero => exact ledger_filling event _ (Nat.le_refl _)
  | succ n ih =>
      rw [← Nat.add_assoc,List.replicate_succ',ledger_snoc,ih,Ledger.record]
      dsimp only
      rw [List.length_replicate,if_pos (Nat.sub_zero _)]

end Input
