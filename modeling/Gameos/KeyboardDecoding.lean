import Mathlib.Data.List.Nodup
import Gameos.InputHistory

-- gameos/ps2.hh: the scancodes of a PS/2 keyboard, byte by byte, as input events.
namespace KeyboardDecoding
open Input (Key Event State Call Poll_Result submit_event key_held key_change held submitted clear_state Tracked)

def KEY_UP_RANGE_START : Nat := 128
def KEY_EXTENDED_OFFSET : Nat := 0x80
def EXTENDED_PREFIX : UInt8 := 0xE0

-- Scancode, each with the key that to_input_key makes of it.
def scancodes : List (Nat × Key) :=
  [(0x01,.escape),(0x02,.digit_1),(0x03,.digit_2),(0x04,.digit_3),(0x05,.digit_4),(0x06,.digit_5),(0x07,.digit_6),
   (0x08,.digit_7),(0x09,.digit_8),(0x0A,.digit_9),(0x0B,.digit_0),(0x0C,.minus),(0x0D,.equals),(0x0E,.backspace),
   (0x0F,.tab),(0x10,.q),(0x11,.w),(0x12,.e),(0x13,.r),(0x14,.t),(0x15,.y),(0x16,.u),(0x17,.i),(0x18,.o),(0x19,.p),
   (0x1A,.left_bracket),(0x1B,.right_bracket),(0x1C,.enter),(0x1D,.left_control),(0x1E,.a),(0x1F,.s),(0x20,.d),
   (0x21,.f),(0x22,.g),(0x23,.h),(0x24,.j),(0x25,.k),(0x26,.l),(0x27,.semicolon),(0x28,.apostrophe),(0x29,.grave),
   (0x2A,.left_shift),(0x2B,.backslash),(0x2C,.z),(0x2D,.x),(0x2E,.c),(0x2F,.v),(0x30,.b),(0x31,.n),(0x32,.m),
   (0x33,.comma),(0x34,.period),(0x35,.slash),(0x36,.right_shift),(0x37,.keypad_multiply),(0x38,.left_alt),
   (0x39,.space),(0x3A,.caps_lock),(0x3B,.f1),(0x3C,.f2),(0x3D,.f3),(0x3E,.f4),(0x3F,.f5),(0x40,.f6),(0x41,.f7),
   (0x42,.f8),(0x43,.f9),(0x44,.f10),(0x45,.num_lock),(0x46,.scroll_lock),(0x47,.keypad_7),(0x48,.keypad_8),
   (0x49,.keypad_9),(0x4A,.keypad_minus),(0x4B,.keypad_4),(0x4C,.keypad_5),(0x4D,.keypad_6),(0x4E,.keypad_plus),
   (0x4F,.keypad_1),(0x50,.keypad_2),(0x51,.keypad_3),(0x52,.keypad_0),(0x53,.keypad_period),(0x57,.f11),(0x58,.f12),
   (0x1D + KEY_EXTENDED_OFFSET,.right_control),(0x38 + KEY_EXTENDED_OFFSET,.right_alt),
   (0x4D + KEY_EXTENDED_OFFSET,.right_arrow),(0x4B + KEY_EXTENDED_OFFSET,.left_arrow),
   (0x48 + KEY_EXTENDED_OFFSET,.up_arrow),(0x50 + KEY_EXTENDED_OFFSET,.down_arrow)]

def toInputKey (scancode : Nat) : Key := (scancodes.lookup scancode).getD .unknown

-- extended_pending, and the input state the events go to.
structure Driver where
  extendedPending : Bool
  input : State

def isrHandlePs2Keyboard (driver : Driver) (scancodeValue : UInt8) : Option Driver :=
  if scancodeValue = EXTENDED_PREFIX then some {driver with extendedPending := true}
  else
    let keyUp := decide (KEY_UP_RANGE_START ≤ scancodeValue.toNat)
    let keyValue := if keyUp then scancodeValue.toNat - KEY_UP_RANGE_START else scancodeValue.toNat
    let keyValue := if driver.extendedPending then (keyValue + KEY_EXTENDED_OFFSET) % 256 else keyValue
    let key := toInputKey keyValue
    if key = .unknown then some ⟨false,driver.input⟩
    else
      let held := !keyUp && key_held driver.input key
      let event : Event := if keyUp then .key_up ⟨key,false⟩ else .key_down ⟨key,held⟩
      (submit_event driver.input event).map fun input => ⟨false,input⟩

-- What happens to the input state: a byte of the keyboard, or a call of anyone else.
inductive Occurrence where
  | byte (value : UInt8)
  | call (call : Call)

def Driver.perform (driver : Driver) : Occurrence → Option (List Poll_Result × Driver)
  | .byte value => (isrHandlePs2Keyboard driver value).map fun driver => ([],driver)
  | .call call => (Input.perform driver.input call).map fun (results,input) => (results,{driver with input := input})

def Driver.run (driver : Driver) : List Occurrence → Option (List Poll_Result × Driver)
  | [] => some ([],driver)
  | occurrence :: rest =>
    (driver.perform occurrence).bind fun (results,driver) => (driver.run rest).map fun (later,driver) => (results ++ later,driver)

-- A key pressed or let go. A stroke whose last byte is the prefix does not exist.
structure Stroke where
  extended : Bool
  code : Nat
  down : Bool
  small : code < KEY_UP_RANGE_START
  proper : down = true ∨ code ≠ 0x60

def Stroke.key (stroke : Stroke) : Key := toInputKey (if stroke.extended then stroke.code + KEY_EXTENDED_OFFSET else stroke.code)
def Stroke.byte (stroke : Stroke) : UInt8 := UInt8.ofNat (if stroke.down then stroke.code else stroke.code + KEY_UP_RANGE_START)

-- Another device, a frame, or a poll: nothing of these speaks of keys.
def Keyless (call : Call) : Prop := ∀ key,(submitted [call]).filterMap (key_change key) = []
abbrev Other := {call : Call // Keyless call}

-- What is done at the machine. Others may come between the two bytes of a stroke.
inductive Deed where
  | stroke (stroke : Stroke) (between : List Other)
  | other (other : Other)

def Deed.occurrences : Deed → List Occurrence
  | .stroke typed between => (if typed.extended then [.byte EXTENDED_PREFIX] else []) ++
      between.map (fun other => .call other.val) ++ [.byte typed.byte]
  | .other elsewhere => [.call elsewhere.val]

-- The event of a stroke: it repeats where the history says that the key is down.
def Stroke.calls (stroke : Stroke) (past : List Call) : List Call :=
  if stroke.key = .unknown then []
  else if stroke.down then [.submit_event (.key_down ⟨stroke.key,held (key_change stroke.key) (submitted past)⟩)]
  else [.submit_event (.key_up ⟨stroke.key,false⟩)]

def Deed.calls (past : List Call) : Deed → List Call
  | .stroke typed between => between.map Subtype.val ++ typed.calls (past ++ between.map Subtype.val)
  | .other elsewhere => [elsewhere.val]

def decoded (past : List Call) : List Deed → List Call
  | [] => []
  | deed :: deeds => deed.calls past ++ decoded (past ++ deed.calls past) deeds

-- What a deed says of a key.
def Deed.strokeOf (key : Key) : Deed → Option Bool
  | .stroke typed _ => if typed.key = key then some typed.down else none
  | .other _ => none

def lastStroke (key : Key) (deeds : List Deed) : Bool := ((deeds.filterMap (Deed.strokeOf key)).getLast?).getD false

section Table

-- No two scancodes stand for one key, and no key but unknown is left out.
theorem scancodes_listed : (scancodes.map Prod.fst).Nodup ∧ (scancodes.map Prod.snd).Nodup ∧ (∀ row ∈ scancodes,row.1 < 256 ∧ row.2 ≠ .unknown) := by
  decide +kernel

theorem key_listed (key : Key) : key = .unknown ∨ key ∈ scancodes.map Prod.snd := by
  cases key <;> decide

theorem mem_of_lookup {rows : List (Nat × Key)} (found : rows.lookup scancode = some key) : (scancode,key) ∈ rows := by
  induction rows with
  | nil => cases found
  | cons row rows ih =>
      rw [List.lookup_cons] at found
      cases same : scancode == row.1 with
      | true =>
          rw [same] at found
          cases found
          rw [beq_iff_eq] at same
          rw [same]
          exact List.mem_cons_self
      | false =>
          rw [same] at found
          exact List.mem_cons_of_mem _ (ih found)

theorem lookup_of_mem {rows : List (Nat × Key)} (distinct : (rows.map Prod.fst).Nodup) (listed : (scancode,key) ∈ rows) :
    rows.lookup scancode = some key := by
  induction rows with
  | nil => cases listed
  | cons row rows ih =>
      obtain ⟨apart,distinct⟩ := List.nodup_cons.mp distinct
      rcases List.mem_cons.mp listed with rfl | later
      · rw [List.lookup_cons,beq_self_eq_true]
      · have other : (scancode == row.1) = false := by
          rw [beq_eq_false_iff_ne]
          intro same
          exact apart (same ▸ List.mem_map_of_mem later)
        rw [List.lookup_cons,other]
        exact ih distinct later

theorem toInputKey_exact (known : key ≠ .unknown) : toInputKey scancode = key ↔ (scancode,key) ∈ scancodes := by
  unfold toInputKey
  constructor
  · intro same
    cases found : scancodes.lookup scancode with
    | none =>
        rw [found] at same
        exact absurd same.symm known
    | some other =>
        rw [found,Option.getD_some] at same
        rw [← same]
        exact mem_of_lookup found
  · intro listed
    rw [lookup_of_mem scancodes_listed.1 listed]
    rfl

theorem scancode_unique (known : key ≠ .unknown) : ∃! scancode,toInputKey scancode = key := by
  obtain ⟨row,listed,same⟩ := List.mem_map.mp ((key_listed key).resolve_left known)
  refine ⟨row.1,?_,fun other found => ?_⟩
  · subst same
    exact (toInputKey_exact known).mpr listed
  · have here := (toInputKey_exact known).mp found
    have rows := List.inj_on_of_nodup_map scancodes_listed.2.1 here listed same.symm
    exact congrArg Prod.fst rows

end Table

section Runs
variable {past : List Call} {results : List Poll_Result} {s : State}

theorem run_append {driver middle last : Driver} {one two : List Occurrence} (first : driver.run one = some (results,middle))
    (second : middle.run two = some (later,last)) : driver.run (one ++ two) = some (results ++ later,last) := by
  induction one generalizing driver results with
  | nil =>
      cases first
      exact second
  | cons occurrence one ih =>
      rw [Driver.run] at first
      rw [List.cons_append,Driver.run]
      cases performed : driver.perform occurrence with
      | none =>
          rw [performed] at first
          cases first
      | some here =>
          obtain ⟨produced,next⟩ := here
          rw [performed,Option.bind_some] at first
          rw [Option.bind_some]
          dsimp only at first ⊢
          cases rest : next.run one with
          | none =>
              rw [rest] at first
              cases first
          | some there =>
              rw [rest] at first
              cases first
              rw [ih rest,Option.map_some,List.append_assoc]

theorem input_append {s middle last : State} {one two : List Call} (first : Input.run s one = some (results,middle))
    (second : Input.run middle two = some (later,last)) : Input.run s (one ++ two) = some (results ++ later,last) := by
  induction one generalizing s results with
  | nil =>
      cases first
      exact second
  | cons call one ih =>
      rw [Input.run] at first
      rw [List.cons_append,Input.run]
      cases performed : Input.perform s call with
      | none =>
          rw [performed] at first
          cases first
      | some here =>
          obtain ⟨produced,next⟩ := here
          rw [performed,Option.bind_some] at first
          rw [Option.bind_some]
          dsimp only at first ⊢
          cases rest : Input.run next one with
          | none =>
              rw [rest] at first
              cases first
          | some there =>
              rw [rest] at first
              cases first
              rw [ih rest,Option.map_some,List.append_assoc]

theorem run_calls (pending : Bool) {s after : State} {calls : List Call} (runs : Input.run s calls = some (results,after)) :
    (Driver.mk pending s).run (calls.map .call) = some (results,⟨pending,after⟩) := by
  induction calls generalizing s results with
  | nil =>
      cases runs
      rfl
  | cons call calls ih =>
      rw [Input.run] at runs
      rw [List.map_cons,Driver.run,Driver.perform]
      cases performed : Input.perform s call with
      | none =>
          rw [performed] at runs
          cases runs
      | some here =>
          obtain ⟨produced,next⟩ := here
          rw [performed,Option.bind_some] at runs
          rw [Option.map_some,Option.bind_some]
          dsimp only at runs ⊢
          cases rest : Input.run next calls with
          | none =>
              rw [rest] at runs
              cases runs
          | some there =>
              rw [rest] at runs
              cases runs
              rw [ih rest]
              rfl

theorem Stroke.byte_value (typed : Stroke) :
    typed.byte.toNat = (if typed.down then typed.code else typed.code + KEY_UP_RANGE_START) := by
  have small := typed.small
  simp only [KEY_UP_RANGE_START] at small ⊢
  rw [Stroke.byte,UInt8.toNat_ofNat']
  simp only [KEY_UP_RANGE_START]
  split <;> omega

theorem Stroke.byte_proper (typed : Stroke) : typed.byte ≠ EXTENDED_PREFIX := by
  intro same
  have value := typed.byte_value
  rw [same] at value
  have prefixed : EXTENDED_PREFIX.toNat = 224 := rfl
  have small := typed.small
  simp only [KEY_UP_RANGE_START] at small value
  rcases typed.proper with down | other
  · rw [if_pos down] at value
    omega
  · split at value <;> omega

-- The last byte of a stroke, with the prefix pending or not as it should be.
theorem isr_stroke (typed : Stroke) (s : State) : isrHandlePs2Keyboard ⟨typed.extended,s⟩ typed.byte =
    if typed.key = .unknown then some ⟨false,s⟩
    else (submit_event s (if typed.down then .key_down ⟨typed.key,key_held s typed.key⟩ else .key_up ⟨typed.key,false⟩)).map
      fun input => ⟨false,input⟩ := by
  have value := typed.byte_value
  have small := typed.small
  simp only [KEY_UP_RANGE_START] at small
  have up : decide (KEY_UP_RANGE_START ≤ typed.byte.toNat) = !typed.down := by
    rw [value]
    simp only [KEY_UP_RANGE_START]
    cases typed.down
    · simp
    · simp only [if_true,Bool.not_true,decide_eq_false_iff_not]
      omega
  have code : (if !typed.down then typed.byte.toNat - KEY_UP_RANGE_START else typed.byte.toNat) = typed.code := by
    rw [value]
    cases typed.down <;> simp
  have key : toInputKey (if typed.extended then (typed.code + KEY_EXTENDED_OFFSET) % 256 else typed.code) = typed.key := by
    have fits : (typed.code + KEY_EXTENDED_OFFSET) % 256 = typed.code + KEY_EXTENDED_OFFSET :=
      Nat.mod_eq_of_lt (by simp only [KEY_EXTENDED_OFFSET]; omega)
    rw [fits,Stroke.key]
  unfold isrHandlePs2Keyboard
  rw [if_neg typed.byte_proper]
  dsimp only
  rw [up,code,key]
  cases typed.down <;> simp

-- The stroke's call, as the history has it: the state knows which keys are down.
theorem stroke_performed (typed : Stroke) (tracked : Tracked past results s) :
    ∃ after,(Driver.mk typed.extended s).run [.byte typed.byte] = some ([],⟨false,after⟩) ∧
      Input.run s (typed.calls past) = some ([],after) ∧ Tracked (past ++ typed.calls past) results after := by
  rw [Driver.run,Driver.perform,isr_stroke,Stroke.calls]
  by_cases unknown : typed.key = .unknown
  · rw [if_pos unknown,if_pos unknown]
    refine ⟨s,rfl,rfl,?_⟩
    rw [List.append_nil]
    exact tracked
  · rw [if_neg unknown,if_neg unknown,key_held,tracked.keys _ unknown]
    have call : (if typed.down = true then [Call.submit_event (.key_down ⟨typed.key,held (key_change typed.key) (submitted past)⟩)]
          else [Call.submit_event (.key_up ⟨typed.key,false⟩)]) =
        [Call.submit_event (if typed.down then .key_down ⟨typed.key,held (key_change typed.key) (submitted past)⟩
          else .key_up ⟨typed.key,false⟩)] := by
      cases typed.down <;> rfl
    rw [call]
    generalize (if typed.down = true then Event.key_down ⟨typed.key,held (key_change typed.key) (submitted past)⟩
      else Event.key_up ⟨typed.key,false⟩) = event
    obtain ⟨more,after,performed,tracked⟩ := Input.perform_tracked (.submit_event event) tracked
    rw [Input.perform] at performed
    cases submits : submit_event s event with
    | none =>
        rw [submits] at performed
        cases performed
    | some next =>
        rw [submits] at performed
        cases performed
        rw [List.append_nil] at tracked
        refine ⟨after,rfl,?_,tracked⟩
        rw [Input.run,Input.perform,submits]
        rfl

theorem deed_performed (deed : Deed) (tracked : Tracked past results s) :
    ∃ more after,(Driver.mk false s).run deed.occurrences = some (more,⟨false,after⟩) ∧
      Input.run s (deed.calls past) = some (more,after) ∧ Tracked (past ++ deed.calls past) (results ++ more) after := by
  cases deed with
  | other elsewhere =>
      obtain ⟨more,after,runs,tracked⟩ := Input.run_tracked [elsewhere.val] tracked
      exact ⟨more,after,run_calls false runs,runs,tracked⟩
  | stroke typed between =>
      obtain ⟨more,middle,runs,tracked⟩ := Input.run_tracked (between.map Subtype.val) tracked
      obtain ⟨after,read,submits,tracked⟩ := stroke_performed typed tracked
      have prefixed : (Driver.mk false s).run (if typed.extended then [.byte EXTENDED_PREFIX] else []) =
          some ([],⟨typed.extended,s⟩) := by
        cases typed.extended <;> rfl
      have others : between.map (fun other => Occurrence.call other.val) = (between.map Subtype.val).map .call := by
        rw [List.map_map]
        rfl
      have waited := run_append prefixed (run_calls typed.extended runs)
      have all := run_append waited read
      have called := input_append runs submits
      rw [List.nil_append,List.append_nil] at all
      rw [List.append_nil] at called
      refine ⟨more,after,?_,called,?_⟩
      · rw [Deed.occurrences,others]
        exact all
      · rw [Deed.calls,← List.append_assoc]
        exact tracked

theorem deeds_performed (deeds : List Deed) (tracked : Tracked past results s) :
    ∃ more after,(Driver.mk false s).run (deeds.flatMap Deed.occurrences) = some (more,⟨false,after⟩) ∧
      Input.run s (decoded past deeds) = some (more,after) ∧ Tracked (past ++ decoded past deeds) (results ++ more) after := by
  induction deeds generalizing past results s with
  | nil =>
      refine ⟨[],s,rfl,rfl,?_⟩
      rw [decoded,List.append_nil,List.append_nil]
      exact tracked
  | cons deed deeds ih =>
      obtain ⟨here,middle,read,runs,tracked⟩ := deed_performed deed tracked
      obtain ⟨later,after,reads,called,tracked⟩ := ih tracked
      rw [List.append_assoc,List.append_assoc] at tracked
      rw [List.flatMap_cons]
      exact ⟨here ++ later,after,run_append read reads,input_append runs called,tracked⟩

end Runs

section History
variable {key : Key}

theorem others_keyless (key : Key) (between : List Other) :
    (submitted (between.map Subtype.val)).filterMap (key_change key) = [] := by
  induction between with
  | nil => rfl
  | cons other between ih =>
      have here := other.property key
      rw [List.map_cons,← List.singleton_append,Input.submitted_append,List.filterMap_append,here,ih]
      rfl

theorem stroke_change (typed : Stroke) (past : List Call) (known : key ≠ .unknown) :
    (submitted (typed.calls past)).filterMap (key_change key) = if typed.key = key then [typed.down] else [] := by
  unfold Stroke.calls
  by_cases unknown : typed.key = .unknown
  · have other : ¬ typed.key = key := fun same => known (same.symm.trans unknown)
    rw [if_pos unknown,if_neg other]
    rfl
  · rw [if_neg unknown]
    by_cases same : typed.key = key <;> cases typed.down <;> simp [submitted,Call.submitted,key_change,same]

theorem deed_change (deed : Deed) (past : List Call) (known : key ≠ .unknown) :
    (submitted (deed.calls past)).filterMap (key_change key) = (deed.strokeOf key).toList := by
  cases deed with
  | other elsewhere => exact elsewhere.property key
  | stroke typed between =>
      rw [Deed.calls,Input.submitted_append,List.filterMap_append,others_keyless,stroke_change typed _ known,List.nil_append,
        Deed.strokeOf]
      split <;> rfl

theorem decoded_changes (deeds : List Deed) (past : List Call) (known : key ≠ .unknown) :
    (submitted (decoded past deeds)).filterMap (key_change key) = deeds.filterMap (Deed.strokeOf key) := by
  induction deeds generalizing past with
  | nil => rfl
  | cons deed deeds ih =>
      rw [decoded,Input.submitted_append,List.filterMap_append,ih,deed_change deed past known]
      cases said : deed.strokeOf key with
      | none =>
          rw [List.filterMap_cons_none said]
          rfl
      | some down =>
          rw [List.filterMap_cons_some said]
          rfl

end History

-- Whatever is typed, and whatever else happens meanwhile, the driver submits what was typed:
-- each stroke as the event of its key, marked as a repeat exactly where the key was down already.
-- After it the keys held are those last pressed. Every key but unknown can be typed, in one way.
theorem keyboard_decoded (start : State) (deeds : List Deed) :
    (∃ results s,(Driver.mk false (clear_state start)).run (deeds.flatMap Deed.occurrences) = some (results,⟨false,s⟩) ∧
      Input.run (clear_state start) (decoded [] deeds) = some (results,s) ∧
        ∀ key,key ≠ .unknown → key_held s key = lastStroke key deeds) ∧
      ∀ key,key ≠ Key.unknown → ∃! scancode,toInputKey scancode = key := by
  refine ⟨?_,fun key known => scancode_unique known⟩
  obtain ⟨results,s,reads,runs,tracked⟩ := deeds_performed deeds (Input.cleared_tracked start)
  refine ⟨results,s,reads,runs,fun key known => ?_⟩
  rw [key_held,tracked.keys key known,List.nil_append,held,decoded_changes deeds [] known]
  rfl

end KeyboardDecoding
