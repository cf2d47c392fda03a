import Gameos.InputHistory

-- gameos/ps2.hh: the packets of a PS/2 mouse, byte by byte, as input events.
namespace MouseDecoding
open Input (State Event Mouse_Button Mouse_Delta submit_event mouse_button_held)

-- Mouse_Flags
def LEFT_BUTTON : UInt8 := 1
def RIGHT_BUTTON : UInt8 := 2
def MIDDLE_BUTTON : UInt8 := 4
def ALWAYS_ONE : UInt8 := 8
def X_SIGN : UInt8 := 16
def Y_SIGN : UInt8 := 32
def X_OVERFLOW : UInt8 := 64
def Y_OVERFLOW : UInt8 := 128

def MOUSE_PACKET_SIZE : Nat := 3

def hasFlag (value flag : UInt8) : Bool := value &&& flag = flag

-- mouse_packet, and the input state the events go to.
structure Driver where
  bytes : Nat → UInt8
  index : Nat
  input : State

-- The events submitted, and the input state after them.
def submitMouseButton (flags buttonFlag : UInt8) (button : Mouse_Button) (input : State) : Option (List Event × State) :=
  let isDown := hasFlag flags buttonFlag
  if mouse_button_held input button = isDown then some ([],input)
  else
    let event : Event := if isDown then .mouse_button_down button else .mouse_button_up button
    (submit_event input event).map fun input => ([event],input)

-- cast(s32)cast(s8)
def s8 (value : UInt8) : Int := if value.toNat < 128 then value.toNat else value.toNat - 256

def processMotion (flags x y : UInt8) (input : State) : Option (List Event × State) :=
  if hasFlag flags X_OVERFLOW || hasFlag flags Y_OVERFLOW then some ([],input)
  else
    let xrel := s8 x
    let yrel := -s8 y
    if xrel = 0 ∧ yrel = 0 then some ([],input)
    else
      let event : Event := .mouse_motion ⟨xrel,yrel⟩
      (submit_event input event).map fun input => ([event],input)

def processMouseByte (driver : Driver) (value : UInt8) : Option (List Event × Driver) :=
  if driver.index = 0 ∧ hasFlag value ALWAYS_ONE = false then some ([],driver)
  else
    let bytes := fun i => if i = driver.index then value else driver.bytes i
    if driver.index + 1 < MOUSE_PACKET_SIZE then some ([],⟨bytes,driver.index + 1,driver.input⟩)
    else do
      let flags := bytes 0
      let (left,input) ← submitMouseButton flags LEFT_BUTTON .left driver.input
      let (right,input) ← submitMouseButton flags RIGHT_BUTTON .right input
      let (middle,input) ← submitMouseButton flags MIDDLE_BUTTON .middle input
      let (motion,input) ← processMotion flags (bytes 1) (bytes 2) input
      return (left ++ right ++ middle ++ motion,⟨bytes,0,input⟩)

-- A byte, and what everyone else did to the input state before it.
structure Arrival where
  value : UInt8
  meanwhile : State → State

-- The input state a byte met, and the events it led to.
structure Report where
  met : State
  events : List Event

def feed (driver : Driver) : List Arrival → Option (List Report × Driver)
  | [] => some ([],driver)
  | arrival :: rest => do
    let met := arrival.meanwhile driver.input
    let (events,driver) ← processMouseByte { driver with input := met } arrival.value
    let (reports,driver) ← feed driver rest
    return (⟨met,events⟩ :: reports,driver)

def start (input : State) : Driver := ⟨fun _ => 0,0,input⟩

-- What the three bytes of a packet stand for.
structure MousePacket where
  flags : UInt8
  x : UInt8
  y : UInt8
  always : hasFlag flags ALWAYS_ONE = true

-- A 9-bit two's-complement number.
def delta (sign : Bool) (movement : UInt8) : Int := movement.toNat - if sign then 256 else 0

def buttonEvent (held : Mouse_Button → Bool) (button : Mouse_Button) (down : Bool) : List Event :=
  if held button = down then [] else [if down then .mouse_button_down button else .mouse_button_up button]

def MousePacket.overflows (packet : MousePacket) : Bool :=
  hasFlag packet.flags X_OVERFLOW || hasFlag packet.flags Y_OVERFLOW

def MousePacket.motion (packet : MousePacket) : List Event :=
  let x := delta (hasFlag packet.flags X_SIGN) packet.x
  let y := delta (hasFlag packet.flags Y_SIGN) packet.y
  if packet.overflows then [] else if x = 0 ∧ y = 0 then [] else [.mouse_motion ⟨x,-y⟩]

def MousePacket.buttons (packet : MousePacket) (held : Mouse_Button → Bool) : List Event :=
  buttonEvent held .left (hasFlag packet.flags LEFT_BUTTON) ++
    buttonEvent held .right (hasFlag packet.flags RIGHT_BUTTON) ++
    buttonEvent held .middle (hasFlag packet.flags MIDDLE_BUTTON)

-- A packet on its way: bytes without the always-one bit, then its own three.
structure Sent where
  noise : List Arrival
  quiet : ∀ arrival ∈ noise,hasFlag arrival.value ALWAYS_ONE = false
  packet : MousePacket
  before : State → State
  between : State → State
  last : State → State

def Sent.arrivals (sent : Sent) : List Arrival :=
  sent.noise ++ [⟨sent.packet.flags,sent.before⟩,⟨sent.packet.x,sent.between⟩,⟨sent.packet.y,sent.last⟩]

-- One group of reports a packet, the events all at its third byte.
inductive Decoded : List Sent → List Report → Prop where
  | nil : Decoded [] []
  | packet (noise : List Report) (first second third : Report) (length : noise.length = sent.noise.length)
      (silent : ∀ report ∈ noise,report.events = []) (one : first.events = []) (two : second.events = [])
      (three : third.events = sent.packet.buttons third.met.mouse_buttons ++ sent.packet.motion)
      (later : Decoded rest reports) : Decoded (sent :: rest) (noise ++ first :: second :: third :: reports)

-- Both deltas have the sign of their movement byte alone.
def MousePacket.Short (packet : MousePacket) : Prop :=
  (hasFlag packet.flags X_SIGN = decide (128 ≤ packet.x.toNat)) ∧
    (hasFlag packet.flags Y_SIGN = decide (128 ≤ packet.y.toNat))

theorem submit_event_any (s : State) (event : Event) : ∃ after,submit_event s event = some after ∧
    after.mouse_buttons = (Input.note s event).mouse_buttons := by
  obtain ⟨_,submitted⟩ | ⟨_,_,_,submitted⟩ := Input.submit_event_cases s event
  · exact ⟨_,submitted,rfl⟩
  · exact ⟨_,submitted,rfl⟩

-- A button's event depends on that button, and changes no other.
theorem submitMouseButton_events (flags flag : UInt8) (button : Mouse_Button) (s : State) : ∃ after,
    submitMouseButton flags flag button s = some (buttonEvent s.mouse_buttons button (hasFlag flags flag),after) ∧
      ∀ other,other ≠ button → after.mouse_buttons other = s.mouse_buttons other := by
  unfold submitMouseButton buttonEvent mouse_button_held
  dsimp only
  by_cases same : s.mouse_buttons button = hasFlag flags flag
  · rw [if_pos same,if_pos same]
    exact ⟨s,rfl,fun _ _ => rfl⟩
  · rw [if_neg same,if_neg same]
    obtain ⟨after,submitted,buttons⟩ := submit_event_any s
      (if hasFlag flags flag then .mouse_button_down button else .mouse_button_up button)
    refine ⟨after,by rw [submitted]; rfl,fun other apart => ?_⟩
    have unlike : ¬ button = other := fun equal => apart equal.symm
    rw [buttons,(Input.note_button s other _).1]
    cases hasFlag flags flag <;> simp [Input.button_change,unlike]

def motionEvents (flags x y : UInt8) : List Event :=
  if hasFlag flags X_OVERFLOW || hasFlag flags Y_OVERFLOW then []
  else if s8 x = 0 ∧ -s8 y = 0 then [] else [.mouse_motion ⟨s8 x,-s8 y⟩]

theorem processMotion_events (flags x y : UInt8) (s : State) :
    ∃ after,processMotion flags x y s = some (motionEvents flags x y,after) := by
  unfold processMotion motionEvents
  dsimp only
  split
  · exact ⟨s,rfl⟩
  · split
    · exact ⟨s,rfl⟩
    · obtain ⟨after,submitted,_⟩ := submit_event_any s (.mouse_motion ⟨s8 x,-s8 y⟩)
      exact ⟨after,by rw [submitted]; rfl⟩

theorem processMouseByte_skips (driver : Driver) (idle : driver.index = 0) (noise : hasFlag value ALWAYS_ONE = false) :
    processMouseByte driver value = some ([],driver) := if_pos ⟨idle,noise⟩

theorem processMouseByte_keeps {v : UInt8} (driver : Driver) (awake : ¬ (driver.index = 0 ∧ hasFlag v ALWAYS_ONE = false))
    (room : driver.index + 1 < MOUSE_PACKET_SIZE) : processMouseByte driver v =
      some ([],⟨fun i => if i = driver.index then v else driver.bytes i,driver.index + 1,driver.input⟩) :=
  (if_neg awake).trans (if_pos room)

-- The third byte submits the buttons, each against the state the byte met.
theorem processMouseByte_last (bytes : Nat → UInt8) (s : State) (value : UInt8) : ∃ after,
    processMouseByte ⟨bytes,2,s⟩ value =
      some (buttonEvent s.mouse_buttons .left (hasFlag (bytes 0) LEFT_BUTTON) ++
        buttonEvent s.mouse_buttons .right (hasFlag (bytes 0) RIGHT_BUTTON) ++
        buttonEvent s.mouse_buttons .middle (hasFlag (bytes 0) MIDDLE_BUTTON) ++
        motionEvents (bytes 0) (bytes 1) value,after) ∧ after.index = 0 := by
  obtain ⟨first,left,others⟩ := submitMouseButton_events (bytes 0) LEFT_BUTTON .left s
  obtain ⟨second,right,others'⟩ := submitMouseButton_events (bytes 0) RIGHT_BUTTON .right first
  obtain ⟨third,middle,_⟩ := submitMouseButton_events (bytes 0) MIDDLE_BUTTON .middle second
  obtain ⟨fourth,motion⟩ := processMotion_events (bytes 0) (bytes 1) value third
  have heldRight : first.mouse_buttons .right = s.mouse_buttons .right := others _ (by decide)
  have heldMiddle : second.mouse_buttons .middle = s.mouse_buttons .middle := by
    rw [others' _ (by decide),others _ (by decide)]
  have sameRight : buttonEvent first.mouse_buttons .right (hasFlag (bytes 0) RIGHT_BUTTON) =
      buttonEvent s.mouse_buttons .right (hasFlag (bytes 0) RIGHT_BUTTON) := by unfold buttonEvent; rw [heldRight]
  have sameMiddle : buttonEvent second.mouse_buttons .middle (hasFlag (bytes 0) MIDDLE_BUTTON) =
      buttonEvent s.mouse_buttons .middle (hasFlag (bytes 0) MIDDLE_BUTTON) := by unfold buttonEvent; rw [heldMiddle]
  rw [sameRight] at right
  rw [sameMiddle] at middle
  have full : ¬ (2 + 1 < MOUSE_PACKET_SIZE) := by decide
  have awake : ¬ (2 = 0 ∧ hasFlag value ALWAYS_ONE = false) := fun both => absurd both.1 (by decide)
  have zero : (if (0 : Nat) = 2 then value else bytes 0) = bytes 0 := rfl
  have one : (if (1 : Nat) = 2 then value else bytes 1) = bytes 1 := rfl
  have two : (if (2 : Nat) = 2 then value else bytes 2) = value := rfl
  refine ⟨⟨fun i => if i = 2 then value else bytes i,0,fourth⟩,?_,rfl⟩
  unfold processMouseByte
  dsimp only
  rw [if_neg awake,if_neg full,zero,one,two,left]
  show ((submitMouseButton (bytes 0) RIGHT_BUTTON .right first).bind _) = _
  rw [right]
  show ((submitMouseButton (bytes 0) MIDDLE_BUTTON .middle second).bind _) = _
  rw [middle]
  show ((processMotion (bytes 0) (bytes 1) value third).bind _) = _
  rw [motion]
  rfl


theorem feed_cons (processed : processMouseByte { driver with input := arrival.meanwhile driver.input } arrival.value =
    some (events,next)) (rest : List Arrival) : feed driver (arrival :: rest) =
      (feed next rest).map fun (reports,last) => (⟨arrival.meanwhile driver.input,events⟩ :: reports,last) := by
  rw [feed]
  dsimp only
  rw [processed]
  show (feed next rest).bind _ = _
  cases feed next rest <;> rfl

theorem feed_noise (driver : Driver) (idle : driver.index = 0) (noise : List Arrival)
    (quiet : ∀ arrival ∈ noise,hasFlag arrival.value ALWAYS_ONE = false) (rest : List Arrival) : ∃ reports next,
    feed driver (noise ++ rest) = (feed next rest).map (fun (later,last) => (reports ++ later,last)) ∧
      next.index = 0 ∧ reports.length = noise.length ∧ ∀ report ∈ reports,report.events = [] := by
  induction noise generalizing driver with
  | nil =>
      refine ⟨[],driver,?_,idle,rfl,fun _ none => (List.not_mem_nil none).elim⟩
      rw [List.nil_append]
      cases feed driver rest <;> rfl
  | cons arrival noise ih =>
      have skipped := processMouseByte_skips { driver with input := arrival.meanwhile driver.input } idle
        (quiet arrival List.mem_cons_self)
      obtain ⟨reports,next,fed,still,length,silent⟩ := ih { driver with input := arrival.meanwhile driver.input } idle
        (fun other member => quiet other (List.mem_cons_of_mem _ member))
      refine ⟨⟨arrival.meanwhile driver.input,[]⟩ :: reports,next,?_,still,by simp [length],fun report member => ?_⟩
      · rw [List.cons_append,feed_cons skipped,fed]
        cases feed next rest <;> rfl
      · rcases List.mem_cons.mp member with rfl | later
        · rfl
        · exact silent report later

theorem feed_packet (driver : Driver) (idle : driver.index = 0) (packet : MousePacket) (before between last : State → State)
    (rest : List Arrival) : ∃ (first second third : Report) (next : Driver),
    feed driver (⟨packet.flags,before⟩ :: ⟨packet.x,between⟩ :: ⟨packet.y,last⟩ :: rest) =
      (feed next rest).map (fun (later,final) => (first :: second :: third :: later,final)) ∧
      next.index = 0 ∧ first.events = [] ∧ second.events = [] ∧
      third.events = packet.buttons third.met.mouse_buttons ++ motionEvents packet.flags packet.x packet.y := by
  obtain ⟨bytes,index,input⟩ := driver
  cases (show index = 0 from idle)
  have loud : ¬ ((0 : Nat) = 0 ∧ hasFlag packet.flags ALWAYS_ONE = false) := by rw [packet.always]; simp
  have one := processMouseByte_keeps ⟨bytes,0,before input⟩ loud
    (show 0 + 1 < MOUSE_PACKET_SIZE by decide)
  have two := processMouseByte_keeps (v := packet.x)
    ⟨fun i => if i = 0 then packet.flags else bytes i,1,between (before input)⟩
    (fun both => absurd (show 1 = 0 from both.1) (by decide)) (show 1 + 1 < MOUSE_PACKET_SIZE by decide)
  obtain ⟨next,three,still⟩ := processMouseByte_last
    (fun i => if i = 1 then packet.x else if i = 0 then packet.flags else bytes i) (last (between (before input))) packet.y
  refine ⟨⟨before input,[]⟩,⟨between (before input),[]⟩,⟨last (between (before input)),
    packet.buttons (last (between (before input))).mouse_buttons ++ motionEvents packet.flags packet.x packet.y⟩,next,?_,still,rfl,rfl,rfl⟩
  rw [feed_cons one,feed_cons two,feed_cons three]
  cases feed next rest <;> rfl

-- The movement byte alone gives the delta where its top bit is the sign.
theorem delta_s8 (sign : Bool) (movement : UInt8) : delta sign movement = s8 movement ↔ sign = decide (128 ≤ movement.toNat) := by
  have small : movement.toNat < 256 := movement.toNat_lt
  unfold delta s8
  by_cases low : movement.toNat < 128
  · rw [if_pos low,decide_eq_false (Nat.not_le.mpr low)]
    cases sign
    · simp
    · simp only [if_true,Bool.true_eq_false,iff_false]
      omega
  · rw [if_neg low,decide_eq_true (Nat.le_of_not_lt low)]
    cases sign
    · simp only [Bool.false_eq_true,if_false,iff_false]
      omega
    · simp

theorem motion_exact (packet : MousePacket) :
    motionEvents packet.flags packet.x packet.y = packet.motion ↔ packet.overflows = true ∨ packet.Short := by
  unfold MousePacket.motion motionEvents
  dsimp only
  by_cases overflows : packet.overflows = true
  · have flags : (hasFlag packet.flags X_OVERFLOW || hasFlag packet.flags Y_OVERFLOW) = true := overflows
    rw [if_pos flags,if_pos overflows]
    exact iff_of_true rfl (.inl overflows)
  · have flags : ¬ (hasFlag packet.flags X_OVERFLOW || hasFlag packet.flags Y_OVERFLOW) = true := overflows
    rw [if_neg flags,if_neg overflows,or_iff_right overflows,MousePacket.Short,← delta_s8,← delta_s8]
    have smallX : packet.x.toNat < 256 := packet.x.toNat_lt
    have smallY : packet.y.toNat < 256 := packet.y.toNat_lt
    constructor
    · intro same
      have xs : delta (hasFlag packet.flags X_SIGN) packet.x = s8 packet.x ∨
          delta (hasFlag packet.flags X_SIGN) packet.x = s8 packet.x + 256 ∨
          delta (hasFlag packet.flags X_SIGN) packet.x = s8 packet.x - 256 := by
        unfold delta s8
        cases hasFlag packet.flags X_SIGN <;> by_cases high : packet.x.toNat < 128 <;> simp [high]
      by_cases rest : s8 packet.x = 0 ∧ -s8 packet.y = 0
      · rw [if_pos rest] at same
        split at same
        case isTrue still => exact ⟨by omega,by omega⟩
        case isFalse => cases same
      · rw [if_neg rest] at same
        split at same
        case isTrue => cases same
        case isFalse =>
          have fields := Event.mouse_motion.inj (List.cons.inj same).1
          have x := (Mouse_Delta.mk.inj fields).1
          have y := (Mouse_Delta.mk.inj fields).2
          exact ⟨x.symm,by omega⟩
    · rintro ⟨x,y⟩
      rw [x,y]
      have both : (s8 packet.x = 0 ∧ -s8 packet.y = 0) ↔ (s8 packet.x = 0 ∧ s8 packet.y = 0) := by omega
      simp only [both]

theorem decoded_cons {noise : List Report} (length : noise.length = sent.noise.length) :
    Decoded (sent :: rest) (noise ++ first :: second :: third :: reports) ↔
      ((∀ report ∈ noise,report.events = []) ∧ first.events = [] ∧ second.events = [] ∧
        third.events = sent.packet.buttons third.met.mouse_buttons ++ sent.packet.motion) ∧ Decoded rest reports := by
  constructor
  · intro decoded
    generalize shape : noise ++ first :: second :: third :: reports = whole at decoded
    cases decoded with
    | packet noise' first' second' third' length' silent one two three later =>
        obtain ⟨rfl,three_on⟩ := List.append_inj shape (length.trans length'.symm)
        injection three_on with same₁ two_on
        injection two_on with same₂ one_on
        injection one_on with same₃ same₄
        subst same₁ same₂ same₃ same₄
        exact ⟨⟨silent,one,two,three⟩,later⟩
  · rintro ⟨⟨silent,one,two,three⟩,later⟩
    exact .packet noise first second third length silent one two three later

theorem feed_decodes (driver : Driver) (idle : driver.index = 0) (sent : List Sent) : ∃ reports next,
    feed driver (sent.flatMap Sent.arrivals) = some (reports,next) ∧
      (Decoded sent reports ↔ ∀ s ∈ sent,s.packet.overflows = true ∨ s.packet.Short) := by
  induction sent generalizing driver with
  | nil => exact ⟨[],driver,rfl,iff_of_true .nil fun _ none => (List.not_mem_nil none).elim⟩
  | cons s rest ih =>
      rw [List.flatMap_cons,Sent.arrivals,List.append_assoc]
      obtain ⟨noise,awake,skipped,still,length,silent⟩ := feed_noise driver idle s.noise s.quiet
        ([⟨s.packet.flags,s.before⟩,⟨s.packet.x,s.between⟩,⟨s.packet.y,s.last⟩] ++ rest.flatMap Sent.arrivals)
      obtain ⟨first,second,third,next,packet,ready,one,two,three⟩ := feed_packet awake still s.packet s.before s.between s.last
        (rest.flatMap Sent.arrivals)
      obtain ⟨reports,final,fed,later⟩ := ih next ready
      refine ⟨noise ++ first :: second :: third :: reports,final,?_,?_⟩
      · rw [skipped,List.cons_append,List.cons_append,List.cons_append,List.nil_append,packet,fed]
        rfl
      · rw [decoded_cons length,later,List.forall_mem_cons]
        refine and_congr_left fun _ => ?_
        rw [three,List.append_cancel_left_eq,motion_exact]
        exact ⟨fun all => all.2.2.2,fun short => ⟨silent,one,two,short⟩⟩

-- Each packet of every stream leads to its own events exactly where it overflows
-- or both movements fit a signed byte.
theorem packets_decoded_exact (input : State) (sent : List Sent) : ∃ reports last,
    feed (start input) (sent.flatMap Sent.arrivals) = some (reports,last) ∧
      (Decoded sent reports ↔ ∀ s ∈ sent,s.packet.overflows = true ∨ s.packet.Short) :=
  feed_decodes (start input) rfl sent

-- A fast move to the right, by 200.
def fastPacket : MousePacket := ⟨8,200,0,by decide⟩

def fastStream : List Sent := [⟨[],fun _ none => (List.not_mem_nil none).elim,fastPacket,id,id,id⟩]

theorem fast_packet_reversed : fastPacket.motion = [.mouse_motion ⟨200,0⟩] ∧ ∃ reports last,
    feed (start Input.zeroed) (fastStream.flatMap Sent.arrivals) = some (reports,last) ∧
      reports.map Report.events = [[],[],[.mouse_motion ⟨-56,0⟩]] ∧ ¬ Decoded fastStream reports := by
  obtain ⟨reports,last,fed,exact⟩ := feed_decodes (start Input.zeroed) rfl fastStream
  have events : (feed (start Input.zeroed) (fastStream.flatMap Sent.arrivals)).map (fun (reports,_) =>
      reports.map Report.events) = some [[],[],[.mouse_motion ⟨-56,0⟩]] := by decide
  rw [fed] at events
  refine ⟨by decide,reports,last,fed,Option.some.inj events,fun decoded => ?_⟩
  rcases exact.mp decoded _ List.mem_cons_self with overflows | short
  · exact absurd overflows (by decide)
  · exact absurd short.1 (by decide)

end MouseDecoding
