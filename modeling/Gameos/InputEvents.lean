import Gameos.RingBuffer

-- gameos/input.hh: the events that the device backends submit, and what the
-- frames and the queue show of them.
namespace Input

inductive Key where
  | unknown | digit_1 | digit_2 | digit_3 | digit_4 | digit_5 | digit_6 | digit_7 | digit_8 | digit_9
  | digit_0 | q | w | e | r | t | y | u | i | o | p | a | s | d | f | g | h | j | k | l | z | x | c | v | b
  | n | m | f1 | f2 | f3 | f4 | f5 | f6 | f7 | f8 | f9 | f10 | f11 | f12 | minus | equals | escape
  | backspace | enter | space | tab | semicolon | apostrophe | grave | slash | backslash | comma | period
  | left_bracket | right_bracket | left_shift | right_shift | left_alt | right_alt | left_control
  | right_control | caps_lock | num_lock | scroll_lock | keypad_0 | keypad_1 | keypad_2 | keypad_3 | keypad_4
  | keypad_5 | keypad_6 | keypad_7 | keypad_8 | keypad_9 | keypad_multiply | keypad_period | keypad_minus
  | keypad_plus | right_arrow | left_arrow | up_arrow | down_arrow
deriving DecidableEq, Repr, Inhabited

inductive Mouse_Button where
  | left | middle | right | x1 | x2
deriving DecidableEq, Repr, Inhabited

structure Event_Key where
  key : Key
  is_repeat : Bool
deriving DecidableEq, Repr, Inhabited

-- A motion of the mouse or of its wheel.
structure Mouse_Delta where
  x : Int
  y : Int
deriving DecidableEq, Repr, Inhabited

inductive Event where
  | key_down (event : Event_Key)
  | key_up (event : Event_Key)
  | mouse_motion (motion : Mouse_Delta)
  | mouse_button_down (button : Mouse_Button)
  | mouse_button_up (button : Mouse_Button)
  | mouse_wheel (wheel : Mouse_Delta)
deriving DecidableEq, Repr, Inhabited

structure Poll_Result where
  event : Event
  is_present : Bool
deriving DecidableEq, Repr

def EVENT_QUEUE_CAPACITY : Nat := 256

def s32 (value : Int) : Int := value.bmod 4294967296
def u64 (value : Nat) : Nat := value % 18446744073709551616

structure State where
  events : RingBuffer Event EVENT_QUEUE_CAPACITY
  keys : Key → Bool
  next_frame_pressed : Key → Bool
  next_frame_released : Key → Bool
  next_frame_repeated : Key → Bool
  frame_pressed : Key → Bool
  frame_released : Key → Bool
  frame_repeated : Key → Bool
  mouse_buttons : Mouse_Button → Bool
  next_frame_button_pressed : Mouse_Button → Bool
  next_frame_button_released : Mouse_Button → Bool
  frame_button_pressed : Mouse_Button → Bool
  frame_button_released : Mouse_Button → Bool
  next_frame_motion : Mouse_Delta
  frame_motion : Mouse_Delta
  next_frame_wheel : Mouse_Delta
  frame_wheel : Mouse_Delta
  dropped_event_count : Nat

def put [DecidableEq Index] (array : Index → Bool) (index : Index) (value : Bool) : Index → Bool :=
  fun i => if i = index then value else array i

def cleared : Index → Bool := fun _ => false

def submit_key (s : State) (key_event : Event_Key) (is_down : Bool) : State :=
  if key_event.key = .unknown then s
  else
    let was_down := s.keys key_event.key
    let s := {s with keys := put s.keys key_event.key is_down}
    if is_down then
      if was_down then
        if key_event.is_repeat then {s with next_frame_repeated := put s.next_frame_repeated key_event.key true} else s
      else {s with next_frame_pressed := put s.next_frame_pressed key_event.key true}
    else if was_down then {s with next_frame_released := put s.next_frame_released key_event.key true}
    else s

def submit_mouse_button (s : State) (button : Mouse_Button) (is_down : Bool) : State :=
  let was_down := s.mouse_buttons button
  let s := {s with mouse_buttons := put s.mouse_buttons button is_down}
  if is_down && !was_down then {s with next_frame_button_pressed := put s.next_frame_button_pressed button true}
  else if !is_down && was_down then {s with next_frame_button_released := put s.next_frame_button_released button true}
  else s

def clear_state (s : State) : State where
  events := s.events.clear
  keys := cleared
  next_frame_pressed := cleared
  next_frame_released := cleared
  next_frame_repeated := cleared
  frame_pressed := cleared
  frame_released := cleared
  frame_repeated := cleared
  mouse_buttons := cleared
  next_frame_button_pressed := cleared
  next_frame_button_released := cleared
  frame_button_pressed := cleared
  frame_button_released := cleared
  next_frame_motion := ⟨0,0⟩
  frame_motion := ⟨0,0⟩
  next_frame_wheel := ⟨0,0⟩
  frame_wheel := ⟨0,0⟩
  dropped_event_count := 0

def Mouse_Delta.add (sum delta : Mouse_Delta) : Mouse_Delta := ⟨s32 (sum.x + delta.x),s32 (sum.y + delta.y)⟩

-- The switch of submit_event. It does not look at the queue.
def note (s : State) : Event → State
  | .key_down event => submit_key s event true
  | .key_up event => submit_key s event false
  | .mouse_motion motion => {s with next_frame_motion := s.next_frame_motion.add motion}
  | .mouse_wheel wheel => {s with next_frame_wheel := s.next_frame_wheel.add wheel}
  | .mouse_button_down button => submit_mouse_button s button true
  | .mouse_button_up button => submit_mouse_button s button false

-- `none` is a failed assertion of the ring buffer.
def submit_event (s : State) (event : Event) : Option State :=
  let s := note s event
  if s.events.full then some {s with dropped_event_count := u64 (s.dropped_event_count + 1)}
  else (s.events.pushBack event).map fun events => {s with events := events}

def begin_frame (s : State) : State :=
  {s with
    frame_pressed := s.next_frame_pressed
    frame_released := s.next_frame_released
    frame_repeated := s.next_frame_repeated
    frame_button_pressed := s.next_frame_button_pressed
    frame_button_released := s.next_frame_button_released
    frame_motion := s.next_frame_motion
    frame_wheel := s.next_frame_wheel
    next_frame_pressed := cleared
    next_frame_released := cleared
    next_frame_repeated := cleared
    next_frame_button_pressed := cleared
    next_frame_button_released := cleared
    next_frame_motion := ⟨0,0⟩
    next_frame_wheel := ⟨0,0⟩}

def poll_event (s : State) : Option (Poll_Result × State) :=
  if s.events.isEmpty then some (⟨default,false⟩,s)
  else s.events.popFront.map fun (event,events) => (⟨event,true⟩,{s with events := events})

def key_held (s : State) (key : Key) : Bool := s.keys key
def key_pressed (s : State) (key : Key) : Bool := s.frame_pressed key
def key_released (s : State) (key : Key) : Bool := s.frame_released key
def key_repeated (s : State) (key : Key) : Bool := s.frame_repeated key
def mouse_button_held (s : State) (button : Mouse_Button) : Bool := s.mouse_buttons button
def mouse_button_pressed (s : State) (button : Mouse_Button) : Bool := s.frame_button_pressed button
def mouse_button_released (s : State) (button : Mouse_Button) : Bool := s.frame_button_released button
def mouse_motion (s : State) : Mouse_Delta := s.frame_motion
def mouse_wheel (s : State) : Mouse_Delta := s.frame_wheel
def dropped_event_count (s : State) : Nat := s.dropped_event_count

inductive Call where
  | submit_event (event : Event)
  | begin_frame
  | poll_event
deriving DecidableEq, Repr

-- A call, and what a poll has returned.
def perform (s : State) : Call → Option (List Poll_Result × State)
  | .submit_event event => (submit_event s event).map fun s => ([],s)
  | .begin_frame => some ([],begin_frame s)
  | .poll_event => (poll_event s).map fun (result,s) => ([result],s)

def run (s : State) : List Call → Option (List Poll_Result × State)
  | [] => some ([],s)
  | call :: calls =>
    (perform s call).bind fun (results,s) => (run s calls).map fun (later,s) => (results ++ later,s)

end Input
