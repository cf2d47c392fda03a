import Mathlib.Logic.Function.Basic
import Gameos.MadtEntries

-- gameos/ioapic.hh: the redirection entries behind the window of an IOAPIC.
namespace Ioapic
open Acpi

def redirectionEntryTableBase : Nat := 0x10
def versionIndex : Nat := 0x01
def idIndex : Nat := 0x00

inductive Polarity where
  | high | low
deriving DecidableEq, Repr

inductive TriggerMode where
  | edge | level
deriving DecidableEq, Repr

def Polarity.bit : Polarity → Nat
  | .high => 0
  | .low => 1

def Polarity.ofBit (bit : Nat) : Polarity := if bit % 2 = 0 then .high else .low

def TriggerMode.bit : TriggerMode → Nat
  | .edge => 0
  | .level => 1

def TriggerMode.ofBit (bit : Nat) : TriggerMode := if bit % 2 = 0 then .edge else .level

-- Delivery_Mode and Destination_Mode.
def fixed : Fin 8 := 0
def physical : Fin 2 := 0

structure RedirectionEntryLow where
  vector : Fin 256
  deliveryMode : Fin 8
  destinationMode : Fin 2
  deliveryStatus : Fin 2
  polarity : Polarity
  remoteIrr : Fin 2
  triggerMode : TriggerMode
  masked : Fin 2
  reserved : Fin 32768
deriving DecidableEq, Repr

structure RedirectionEntryHigh where
  reserved : Fin 16777216
  destinationApicId : Fin 256
deriving DecidableEq, Repr

structure RedirectionEntry where
  low : RedirectionEntryLow
  high : RedirectionEntryHigh
deriving DecidableEq, Repr

def RedirectionEntryLow.raw (low : RedirectionEntryLow) : Nat :=
  low.vector + 2^8 * low.deliveryMode + 2^11 * low.destinationMode + 2^12 * low.deliveryStatus +
    2^13 * low.polarity.bit + 2^14 * low.remoteIrr + 2^15 * low.triggerMode.bit + 2^16 * low.masked + 2^17 * low.reserved

def RedirectionEntryLow.ofRaw (raw : Nat) : RedirectionEntryLow where
  vector := Fin.ofNat _ raw
  deliveryMode := Fin.ofNat _ (raw / 2^8)
  destinationMode := Fin.ofNat _ (raw / 2^11)
  deliveryStatus := Fin.ofNat _ (raw / 2^12)
  polarity := .ofBit (raw / 2^13)
  remoteIrr := Fin.ofNat _ (raw / 2^14)
  triggerMode := .ofBit (raw / 2^15)
  masked := Fin.ofNat _ (raw / 2^16)
  reserved := Fin.ofNat _ (raw / 2^17)

def RedirectionEntryHigh.raw (high : RedirectionEntryHigh) : Nat := high.reserved + 2^24 * high.destinationApicId

def RedirectionEntryHigh.ofRaw (raw : Nat) : RedirectionEntryHigh where
  reserved := Fin.ofNat _ raw
  destinationApicId := Fin.ofNat _ (raw / 2^24)

-- An IOAPIC as its window shows it.
structure Device where
  select : Nat
  registers : Nat → Nat

structure Write where
  mmio : Nat
  index : Nat
  value : Nat
deriving DecidableEq, Repr

-- hidden::mmio, the IOAPICs by the address of their windows, and what was written to
-- their registers so far.
structure Machine where
  mmio : Nat
  devices : Nat → Device
  writes : List Write

def Machine.register (machine : Machine) (mmio index : Nat) : Nat := (machine.devices mmio).registers index

-- The one that hidden::mmio points to.
def Machine.device (machine : Machine) : Device := machine.devices machine.mmio

def Machine.setDevice (machine : Machine) (device : Device) : Machine :=
  { machine with devices := Function.update machine.devices machine.mmio device }

def Machine.select (machine : Machine) (index : Nat) : Machine :=
  machine.setDevice { machine.device with select := index % 2^32 }

def Machine.window (machine : Machine) : Nat := machine.device.registers machine.device.select

def Machine.writeWindow (machine : Machine) (value : Nat) : Machine :=
  { machine.setDevice { machine.device with registers := Function.update machine.device.registers machine.device.select value } with
    writes := machine.writes ++ [⟨machine.mmio,machine.device.select,value⟩] }

-- The indices are computed in 32 bits.
def highIndex (pin : Nat) : Nat := (redirectionEntryTableBase + 2 * pin + 1) % 2^32
def lowIndex (pin : Nat) : Nat := (redirectionEntryTableBase + 2 * pin) % 2^32

def writeRedirectionEntry (machine : Machine) (pin : Nat) (entry : RedirectionEntry) : Machine :=
  -- High first.
  let machine := (machine.select (highIndex pin)).writeWindow entry.high.raw
  (machine.select (lowIndex pin)).writeWindow entry.low.raw

def readRedirectionEntry (machine : Machine) (pin : Nat) : RedirectionEntry × Machine :=
  let machine := machine.select (highIndex pin)
  let high := RedirectionEntryHigh.ofRaw machine.window
  let machine := machine.select (lowIndex pin)
  (⟨.ofRaw machine.window,high⟩,machine)

def readRegister (machine : Machine) (index : Nat) : Nat × Machine :=
  let machine := machine.select index
  (machine.window,machine)

-- Bits 23:16 of the version register.
def maxRedirectionEntryOf (version : Nat) : Nat := version / 2^16 % 256

def maskPin (machine : Machine) (pin : Nat) : Machine :=
  let (entry,machine) := readRedirectionEntry machine pin
  writeRedirectionEntry machine pin { entry with low := { entry.low with masked := 1 } }

def maskAllPins (machine : Machine) (maxRedirectionEntry : Nat) : Machine :=
  (List.range (maxRedirectionEntry + 1)).foldl maskPin machine

def ioapicInfo (info : MadtInfo) : Except Fault IoapicDesc :=
  match info.ioapics.elements with
  | [] => .error (.assertion "")
  | first :: _ => .ok first

-- The loop over the overrides, from the irq itself and no flags.
def resolve (isaIrq : Nat) : List IsaOverride → Nat × Nat
  | [] => (isaIrq,0)
  | override :: rest => if override.isaIrq = isaIrq then (override.gsi,override.flags) else resolve isaIrq rest

def sub32 (a b : Nat) : Nat := (a + (2^32 - b % 2^32)) % 2^32

-- acpi::MPS_INTI_Flags: polarity in bits 1:0, trigger in bits 3:2.
def polarityOf (flags : Nat) : Polarity := if flags % 4 = 3 then .low else .high
def triggerOf (flags : Nat) : TriggerMode := if flags / 4 % 4 = 3 then .level else .edge

def routedEntry (entry : RedirectionEntry) (vector : Fin 256) (destination flags : Nat) : RedirectionEntry where
  high := { entry.high with destinationApicId := Fin.ofNat _ destination }
  low := { entry.low with
    vector := vector
    masked := 0
    deliveryMode := fixed
    destinationMode := physical
    polarity := polarityOf flags
    triggerMode := triggerOf flags }

def routeIndustryStandardArchitectureIrq (info : MadtInfo) (machine : Machine) (isaIrq vector : Fin 256)
    (destination : Nat) : Except Fault Machine := do
  let first ← ioapicInfo info
  let (gsi,flags) := resolve isaIrq info.overrides.elements
  let pin := sub32 gsi first.gsiBase
  let (entry,machine) := readRedirectionEntry machine pin
  return writeRedirectionEntry machine pin (routedEntry entry vector destination flags)

def ps2KeyboardIrq : Fin 256 := 1
def ps2MouseIrq : Fin 256 := 12
def vectorPs2Keyboard : Fin 256 := 33
def vectorPs2Mouse : Fin 256 := 44

def initializeIoapic (info : MadtInfo) (bootstrapProcessorApicId : Nat) (machine : Machine) : Except Fault Machine := do
  let first ← ioapicInfo info
  let machine := { machine with mmio := first.mmioPhys }
  let (_,machine) := readRegister machine idIndex
  let (version,machine) := readRegister machine versionIndex
  let machine := maskAllPins machine (maxRedirectionEntryOf version)
  let machine ← routeIndustryStandardArchitectureIrq info machine ps2KeyboardIrq vectorPs2Keyboard bootstrapProcessorApicId
  routeIndustryStandardArchitectureIrq info machine ps2MouseIrq vectorPs2Mouse bootstrapProcessorApicId

-- The machines after initialize, whatever is routed and whatever the IOAPICs do.
inductive Reached (info : MadtInfo) : Machine → Prop where
  | initialized : initializeIoapic info bootstrapProcessorApicId machine = .ok after → Reached info after
  | routed : Reached info machine → routeIndustryStandardArchitectureIrq info machine isaIrq vector destination = .ok after →
      Reached info after
  | device (devices : Nat → Device) : Reached info machine → Reached info { machine with devices := devices }

section Routing
variable (info : MadtInfo) (machine : Machine)

def overriding (isaIrq : Nat) : Option IsaOverride := info.overrides.elements.find? (fun override => override.isaIrq = isaIrq)

def gsiOf (isaIrq : Nat) : Nat := ((overriding info isaIrq).map IsaOverride.gsi).getD isaIrq

def flagsOf (isaIrq : Nat) : Nat := ((overriding info isaIrq).map IsaOverride.flags).getD 0

-- none for the reserved value; the bus default of ISA is active high and edge.
def askedPolarity (flags : Nat) : Option Polarity :=
  match flags % 4 with
  | 0 | 1 => some .high
  | 3 => some .low
  | _ => none

def askedTrigger (flags : Nat) : Option TriggerMode :=
  match flags / 4 % 4 with
  | 0 | 1 => some .edge
  | 3 => some .level
  | _ => none

def maxRedirectionEntry (desc : IoapicDesc) : Nat := maxRedirectionEntryOf (machine.register desc.mmioPhys versionIndex)

def InRange (desc : IoapicDesc) (gsi : Nat) : Prop := desc.gsiBase ≤ gsi ∧ gsi ≤ desc.gsiBase + maxRedirectionEntry machine desc

-- The same window, listed at a base that the indices do not tell from the first one's: the
-- first IOAPIC itself, or a second listing of it 2^31 interrupts away.
def Alias (first desc : IoapicDesc) : Prop := desc.mmioPhys = first.mmioPhys ∧ desc.gsiBase % 2^31 = first.gsiBase % 2^31

-- The entry of one pin, of an IOAPIC that has it, and no other register.
structure Programs (isaIrq vector : Fin 256) (destination : Nat) (after : Machine) (desc : IoapicDesc) (pin : Nat)
    (entry : RedirectionEntry) : Prop where
  listed : desc ∈ info.ioapics.elements
  inRange : InRange machine desc (gsiOf info isaIrq)
  place : pin = gsiOf info isaIrq - desc.gsiBase
  vector : entry.low.vector = vector
  destination : entry.high.destinationApicId = destination
  unmasked : entry.low.masked = 0
  fixed : entry.low.deliveryMode = fixed
  physical : entry.low.destinationMode = physical
  polarity : ∀ polarity,askedPolarity (flagsOf info isaIrq) = some polarity → entry.low.polarity = polarity
  trigger : ∀ trigger,askedTrigger (flagsOf info isaIrq) = some trigger → entry.low.triggerMode = trigger
  writes : after.writes = machine.writes ++
    [⟨desc.mmioPhys,redirectionEntryTableBase + 2 * pin + 1,entry.high.raw⟩,
      ⟨desc.mmioPhys,redirectionEntryTableBase + 2 * pin,entry.low.raw⟩]
  high : RedirectionEntryHigh.ofRaw (after.register desc.mmioPhys (redirectionEntryTableBase + 2 * pin + 1)) = entry.high
  low : RedirectionEntryLow.ofRaw (after.register desc.mmioPhys (redirectionEntryTableBase + 2 * pin)) = entry.low
  others : ∀ mmio index,¬(mmio = desc.mmioPhys ∧
      (index = redirectionEntryTableBase + 2 * pin + 1 ∨ index = redirectionEntryTableBase + 2 * pin)) →
    after.register mmio index = machine.register mmio index

def Routed (isaIrq vector : Fin 256) (destination : Nat) : Prop :=
  ∃ after desc pin entry,routeIndustryStandardArchitectureIrq info machine isaIrq vector destination = .ok after ∧
    Programs info machine isaIrq vector destination after desc pin entry

end Routing

section Entries

theorem Polarity.bit_lt (polarity : Polarity) : polarity.bit < 2 := by
  cases polarity <;> decide

theorem TriggerMode.bit_lt (trigger : TriggerMode) : trigger.bit < 2 := by
  cases trigger <;> decide

theorem Polarity.ofBit_eq (polarity : Polarity) (bit : Nat) (same : bit % 2 = polarity.bit) : .ofBit bit = polarity := by
  unfold Polarity.ofBit
  rw [same]
  cases polarity <;> rfl

theorem TriggerMode.ofBit_eq (trigger : TriggerMode) (bit : Nat) (same : bit % 2 = trigger.bit) : .ofBit bit = trigger := by
  unfold TriggerMode.ofBit
  rw [same]
  cases trigger <;> rfl

-- A field read back at its place among the bits below and above.
theorem ofNat_field {n value : Nat} [NeZero n] (field : Fin n) (same : value % n = field) : Fin.ofNat n value = field :=
  Fin.ext same

theorem RedirectionEntryLow.ofRaw_raw (low : RedirectionEntryLow) : .ofRaw low.raw = low := by
  obtain ⟨vector,deliveryMode,destinationMode,deliveryStatus,polarity,remoteIrr,triggerMode,masked,reserved⟩ := low
  have polarityBit := polarity.bit_lt
  have triggerBit := triggerMode.bit_lt
  unfold RedirectionEntryLow.ofRaw RedirectionEntryLow.raw
  dsimp only
  congr 1
  · exact ofNat_field vector (by omega)
  · exact ofNat_field deliveryMode (by omega)
  · exact ofNat_field destinationMode (by omega)
  · exact ofNat_field deliveryStatus (by omega)
  · exact polarity.ofBit_eq _ (by omega)
  · exact ofNat_field remoteIrr (by omega)
  · exact triggerMode.ofBit_eq _ (by omega)
  · exact ofNat_field masked (by omega)
  · exact ofNat_field reserved (by omega)

theorem RedirectionEntryHigh.ofRaw_raw (high : RedirectionEntryHigh) : .ofRaw high.raw = high := by
  obtain ⟨reserved,destinationApicId⟩ := high
  unfold RedirectionEntryHigh.ofRaw RedirectionEntryHigh.raw
  dsimp only
  congr 1
  · exact ofNat_field reserved (by omega)
  · exact ofNat_field destinationApicId (by omega)

end Entries

section Window
variable (machine : Machine) (pin : Nat)

theorem setDevice_here (device : Device) : (machine.setDevice device).devices machine.mmio = device :=
  Function.update_self ..

theorem setDevice_elsewhere (device : Device) (away : mmio ≠ machine.mmio) :
    (machine.setDevice device).devices mmio = machine.devices mmio := Function.update_of_ne away ..

theorem select_selected (index : Nat) (small : index < 2^32) : (machine.select index).device.select = index := by
  show ((machine.select index).devices machine.mmio).select = index
  unfold Machine.select
  rw [setDevice_here]
  exact Nat.mod_eq_of_lt small

theorem select_register (index mmio i : Nat) : (machine.select index).register mmio i = machine.register mmio i := by
  unfold Machine.register Machine.select
  by_cases here : mmio = machine.mmio
  · rw [here,setDevice_here]
    rfl
  · rw [setDevice_elsewhere machine _ here]

theorem select_window (index : Nat) (small : index < 2^32) :
    (machine.select index).window = machine.register machine.mmio index := by
  unfold Machine.window
  rw [select_selected machine index small]
  exact select_register machine index machine.mmio index

theorem writeWindow_here (value : Nat) :
    (machine.writeWindow value).devices machine.mmio =
      { machine.device with registers := Function.update machine.device.registers machine.device.select value } :=
  setDevice_here machine _

theorem writeWindow_elsewhere (value : Nat) (away : mmio ≠ machine.mmio) :
    (machine.writeWindow value).devices mmio = machine.devices mmio := setDevice_elsewhere machine _ away

-- What a select and a write to the window do.
structure Stored (machine after : Machine) (index value : Nat) : Prop where
  mmio : after.mmio = machine.mmio
  writes : after.writes = machine.writes ++ [⟨machine.mmio,index,value⟩]
  here : after.register machine.mmio index = value
  others : ∀ mmio i,¬(mmio = machine.mmio ∧ i = index) → after.register mmio i = machine.register mmio i

theorem select_writeWindow (index value : Nat) (small : index < 2^32) :
    Stored machine ((machine.select index).writeWindow value) index value := by
  have selected := select_selected machine index small
  refine ⟨rfl,?_,?_,?_⟩
  · show machine.writes ++ [⟨machine.mmio,(machine.select index).device.select,value⟩] = _
    rw [selected]
  · unfold Machine.register
    rw [show machine.mmio = (machine.select index).mmio from rfl,writeWindow_here]
    dsimp only
    rw [selected,Function.update_self]
  · intro mmio i other
    rw [← select_register machine index mmio i]
    unfold Machine.register
    by_cases same : mmio = (machine.select index).mmio
    · have away : i ≠ index := fun equal => other ⟨same,equal⟩
      rw [same,writeWindow_here]
      dsimp only
      rw [selected,Function.update_of_ne away]
      rfl
    · rw [writeWindow_elsewhere _ value same]

theorem highIndex_lt : highIndex pin < 2^32 := Nat.mod_lt _ (by decide)

theorem lowIndex_lt : lowIndex pin < 2^32 := Nat.mod_lt _ (by decide)

-- The two are of different parity.
theorem highIndex_ne : highIndex pin ≠ lowIndex pin := by
  unfold highIndex lowIndex redirectionEntryTableBase
  omega

structure Written (machine after : Machine) (pin : Nat) (entry : RedirectionEntry) : Prop where
  mmio : after.mmio = machine.mmio
  writes : after.writes = machine.writes ++
    [⟨machine.mmio,highIndex pin,entry.high.raw⟩,⟨machine.mmio,lowIndex pin,entry.low.raw⟩]
  high : after.register machine.mmio (highIndex pin) = entry.high.raw
  low : after.register machine.mmio (lowIndex pin) = entry.low.raw
  others : ∀ mmio i,¬(mmio = machine.mmio ∧ (i = highIndex pin ∨ i = lowIndex pin)) →
    after.register mmio i = machine.register mmio i

theorem writeRedirectionEntry_written (entry : RedirectionEntry) :
    Written machine (writeRedirectionEntry machine pin entry) pin entry := by
  have first := select_writeWindow machine (highIndex pin) entry.high.raw (highIndex_lt pin)
  have second := select_writeWindow ((machine.select (highIndex pin)).writeWindow entry.high.raw) (lowIndex pin)
    entry.low.raw (lowIndex_lt pin)
  have same := first.mmio
  refine ⟨second.mmio.trans same,?_,?_,?_,?_⟩
  · unfold writeRedirectionEntry
    rw [second.writes,first.writes,same,List.append_assoc]
    rfl
  · have other := second.others machine.mmio (highIndex pin) fun equal => highIndex_ne pin equal.2
    exact other.trans first.here
  · have here := second.here
    rw [same] at here
    exact here
  · intro mmio i away
    have one := first.others mmio i fun equal => away ⟨equal.1,.inl equal.2⟩
    have two := second.others mmio i fun equal => away ⟨equal.1.trans same,.inr equal.2⟩
    exact two.trans one

theorem readRedirectionEntry_keeps :
    (readRedirectionEntry machine pin).2.mmio = machine.mmio ∧ (readRedirectionEntry machine pin).2.writes = machine.writes ∧
      ∀ mmio i,(readRedirectionEntry machine pin).2.register mmio i = machine.register mmio i := by
  refine ⟨rfl,rfl,fun mmio i => ?_⟩
  unfold readRedirectionEntry
  exact (select_register _ (lowIndex pin) mmio i).trans (select_register machine (highIndex pin) mmio i)

end Window

section Reaching
variable {info : MadtInfo} {machine after : Machine} {first : IoapicDesc} {isaIrq vector : Fin 256} {destination : Nat}

theorem bind_ok {first : Except Fault α} {next : α → Except Fault β} (done : (first >>= next) = .ok result) :
    ∃ value,first = .ok value ∧ next value = .ok result := by
  cases first with
  | error fault => cases done
  | ok value => exact ⟨value,rfl,done⟩

theorem ioapicInfo_head (head : info.ioapics.elements.head? = some first) : ioapicInfo info = .ok first := by
  unfold ioapicInfo
  split
  case h_1 none => rw [none] at head; cases head
  case h_2 some => rw [some] at head; cases head; rfl

theorem ioapicInfo_none (none : info.ioapics.elements.head? = none) : ∃ message,ioapicInfo info = .error (.assertion message) := by
  unfold ioapicInfo
  rw [List.head?_eq_none_iff.mp none]
  exact ⟨_,rfl⟩

-- What is written: the pin is counted from the first IOAPIC's base.
theorem route_written (machine : Machine) (head : info.ioapics.elements.head? = some first) (isaIrq vector : Fin 256) (destination : Nat) :
    ∃ after entry,routeIndustryStandardArchitectureIrq info machine isaIrq vector destination = .ok after ∧
      Written machine after (sub32 (resolve isaIrq info.overrides.elements).1 first.gsiBase)
        (routedEntry entry vector destination (resolve isaIrq info.overrides.elements).2) := by
  let pin := sub32 (resolve isaIrq info.overrides.elements).1 first.gsiBase
  let entry := (readRedirectionEntry machine pin).1
  obtain ⟨mmio,writes,registers⟩ := readRedirectionEntry_keeps machine pin
  have written := writeRedirectionEntry_written (readRedirectionEntry machine pin).2 pin
    (routedEntry entry vector destination (resolve isaIrq info.overrides.elements).2)
  refine ⟨_,entry,?_,⟨written.mmio.trans mmio,?_,?_,?_,?_⟩⟩
  · unfold routeIndustryStandardArchitectureIrq
    rw [ioapicInfo_head head]
    rfl
  · rw [written.writes,writes,mmio]
  · rw [← mmio]
    exact written.high
  · rw [← mmio]
    exact written.low
  · intro mmio' i away
    rw [written.others mmio' i (by rw [mmio]; exact away),registers]

theorem route_ioapic (routed : routeIndustryStandardArchitectureIrq info machine isaIrq vector destination = .ok after) :
    ∃ first,info.ioapics.elements.head? = some first := by
  cases head : info.ioapics.elements.head? with
  | some first => exact ⟨first,rfl⟩
  | none =>
      obtain ⟨message,failed⟩ := ioapicInfo_none head
      unfold routeIndustryStandardArchitectureIrq at routed
      rw [failed] at routed
      cases routed

theorem route_mmio (routed : routeIndustryStandardArchitectureIrq info machine isaIrq vector destination = .ok after) :
    after.mmio = machine.mmio := by
  obtain ⟨first,head⟩ := route_ioapic routed
  obtain ⟨_,_,again,written⟩ := route_written machine head isaIrq vector destination
  rw [routed] at again
  cases again
  exact written.mmio

theorem maskPin_mmio (machine : Machine) (pin : Nat) : (maskPin machine pin).mmio = machine.mmio :=
  (writeRedirectionEntry_written _ _ _).mmio

theorem maskAllPins_mmio (machine : Machine) (maxRedirectionEntry : Nat) :
    (maskAllPins machine maxRedirectionEntry).mmio = machine.mmio := by
  unfold maskAllPins
  induction List.range (maxRedirectionEntry + 1) generalizing machine with
  | nil => rfl
  | cons pin rest ih =>
      rw [List.foldl_cons,ih,maskPin_mmio]

theorem initializeIoapic_done (head : info.ioapics.elements.head? = some first) (bootstrapProcessorApicId : Nat)
    (machine : Machine) : ∃ after,initializeIoapic info bootstrapProcessorApicId machine = .ok after := by
  unfold initializeIoapic
  rw [ioapicInfo_head head,ok_bind]
  obtain ⟨keyboard,_,routed,_⟩ := route_written (maskAllPins _ _) head ps2KeyboardIrq vectorPs2Keyboard
    bootstrapProcessorApicId
  obtain ⟨mouse,_,routed',_⟩ := route_written keyboard head ps2MouseIrq vectorPs2Mouse bootstrapProcessorApicId
  refine ⟨mouse,?_⟩
  dsimp only
  rw [routed,ok_bind]
  exact routed'

theorem initializeIoapic_mmio (done : initializeIoapic info bootstrapProcessorApicId machine = .ok after) :
    ∃ first,info.ioapics.elements.head? = some first ∧ after.mmio = first.mmioPhys := by
  cases head : info.ioapics.elements.head? with
  | none =>
      obtain ⟨message,failed⟩ := ioapicInfo_none head
      unfold initializeIoapic at done
      rw [failed] at done
      cases done
  | some first =>
      refine ⟨first,rfl,?_⟩
      unfold initializeIoapic at done
      rw [ioapicInfo_head head,ok_bind] at done
      obtain ⟨routed,keyboard,mouse⟩ := bind_ok done
      rw [route_mmio mouse,route_mmio keyboard]
      exact maskAllPins_mmio _ _

-- hidden::mmio stays where initialize put it.
theorem Reached.wired (reached : Reached info machine) :
    ∃ first,info.ioapics.elements.head? = some first ∧ machine.mmio = first.mmioPhys := by
  induction reached with
  | initialized done => exact initializeIoapic_mmio done
  | routed _ routed ih =>
      rw [route_mmio routed]
      exact ih
  | device devices _ ih => exact ih

end Reaching

section Asked
variable {info : MadtInfo} {machine after : Machine} {desc first : IoapicDesc} {isaIrq vector : Fin 256} {destination : Nat}

theorem resolve_find (isaIrq : Nat) (overrides : List IsaOverride) : resolve isaIrq overrides =
    (((overrides.find? (fun override => override.isaIrq = isaIrq)).map IsaOverride.gsi).getD isaIrq,
      ((overrides.find? (fun override => override.isaIrq = isaIrq)).map IsaOverride.flags).getD 0) := by
  induction overrides with
  | nil => rfl
  | cons override rest ih =>
      unfold resolve
      by_cases here : override.isaIrq = isaIrq
      · rw [if_pos here,List.find?_cons_of_pos (by simp [here])]
        rfl
      · rw [if_neg here,List.find?_cons_of_neg (by simp [here]),ih]

theorem resolve_eq (info : MadtInfo) (isaIrq : Nat) : resolve isaIrq info.overrides.elements = (gsiOf info isaIrq,flagsOf info isaIrq) :=
  resolve_find isaIrq info.overrides.elements

theorem polarityOf_asked (asked : askedPolarity flags = some polarity) : polarityOf flags = polarity := by
  unfold askedPolarity at asked
  unfold polarityOf
  split at asked
  case h_1 bits | h_2 bits =>
    cases asked
    exact if_neg (by omega)
  case h_3 bits =>
    cases asked
    exact if_pos bits
  case h_4 => cases asked

theorem triggerOf_asked (asked : askedTrigger flags = some trigger) : triggerOf flags = trigger := by
  unfold askedTrigger at asked
  unfold triggerOf
  split at asked
  case h_1 bits | h_2 bits =>
    cases asked
    exact if_neg (by omega)
  case h_3 bits =>
    cases asked
    exact if_pos bits
  case h_4 => cases asked

theorem maxRedirectionEntry_le (machine : Machine) (desc : IoapicDesc) : maxRedirectionEntry machine desc ≤ 255 :=
  Nat.le_of_lt_succ (Nat.mod_lt _ (by decide))

-- The pin that is counted from another base shows at the same indices only where the bases
-- are the same but for their top bit, which the doubling drops.
theorem indices_alias (above : base ≤ gsi) (near : gsi ≤ base + 255) :
    highIndex (sub32 gsi other) = redirectionEntryTableBase + 2 * (gsi - base) + 1 ↔ base % 2^31 = other % 2^31 := by
  unfold highIndex sub32 redirectionEntryTableBase
  omega

theorem lowIndex_of_high (high : highIndex pin = redirectionEntryTableBase + 2 * other + 1) :
    lowIndex pin = redirectionEntryTableBase + 2 * other := by
  unfold highIndex at high
  unfold lowIndex
  unfold redirectionEntryTableBase at *
  omega

theorem InRange.near (inRange : InRange machine desc gsi) : gsi ≤ desc.gsiBase + 255 :=
  inRange.2.trans (Nat.add_le_add_left (maxRedirectionEntry_le machine desc) _)

-- Where the first IOAPIC has the pin, its entry is programmed as asked.
theorem route_programs (head : info.ioapics.elements.head? = some first) (wired : machine.mmio = first.mmioPhys)
    (listed : desc ∈ info.ioapics.elements) (same : Alias first desc) (inRange : InRange machine desc (gsiOf info isaIrq))
    (small : destination < 256) : Routed info machine isaIrq vector destination := by
  obtain ⟨after,entry,routed,written⟩ := route_written machine head isaIrq vector destination
  rw [resolve_eq] at written
  have high := (indices_alias inRange.1 inRange.near).mpr same.2
  have low := lowIndex_of_high high
  have mmio : machine.mmio = desc.mmioPhys := wired.trans same.1.symm
  have writes := written.writes
  have highWritten := written.high
  have lowWritten := written.low
  have others := written.others
  rw [high,low,mmio] at writes
  rw [high,mmio] at highWritten
  rw [low,mmio] at lowWritten
  rw [high,low,mmio] at others
  refine ⟨after,desc,_,_,routed,⟨listed,inRange,rfl,rfl,?_,rfl,rfl,rfl,?_,?_,writes,?_,?_,others⟩⟩
  · exact Nat.mod_eq_of_lt small
  · exact fun _ asked => polarityOf_asked asked
  · exact fun _ asked => triggerOf_asked asked
  · rw [highWritten,RedirectionEntryHigh.ofRaw_raw]
  · rw [lowWritten,RedirectionEntryLow.ofRaw_raw]

-- The writes go to the first IOAPIC, whichever has the pin.
theorem routed_first (head : info.ioapics.elements.head? = some first) (wired : machine.mmio = first.mmioPhys)
    (routed : Routed info machine isaIrq vector destination) :
    destination < 256 ∧ ∃ desc ∈ info.ioapics.elements,Alias first desc ∧ InRange machine desc (gsiOf info isaIrq) := by
  obtain ⟨after,desc,pin,entry,done,programs⟩ := routed
  obtain ⟨_,other,again,written⟩ := route_written machine head isaIrq vector destination
  rw [done] at again
  cases again
  have lists := List.append_cancel_left (written.writes.symm.trans programs.writes)
  have write := (List.cons.inj lists).1
  have mmio : machine.mmio = desc.mmioPhys := congrArg Write.mmio write
  have index := congrArg Write.index write
  dsimp only at index
  rw [resolve_eq,programs.place] at index
  have base := (indices_alias programs.inRange.1 programs.inRange.near).mp index
  refine ⟨?_,desc,programs.listed,⟨mmio.symm.trans wired,base⟩,programs.inRange⟩
  rw [← programs.destination]
  exact entry.high.destinationApicId.isLt

end Asked

-- The interrupts of the first IOAPIC are routed as the table says, to every processor whose
-- id an entry has the bits for.
theorem routed_exact (info : MadtInfo) (machine : Machine) (reached : Reached info machine) (isaIrq vector : Fin 256)
    (destination : Nat) : Routed info machine isaIrq vector destination ↔
      destination < 256 ∧ ∃ first,info.ioapics.elements.head? = some first ∧
        ∃ desc ∈ info.ioapics.elements,Alias first desc ∧ InRange machine desc (gsiOf info isaIrq) := by
  obtain ⟨first,head,wired⟩ := reached.wired
  constructor
  · intro routed
    obtain ⟨small,here⟩ := routed_first head wired routed
    exact ⟨small,first,head,here⟩
  · rintro ⟨small,first',head',desc,listed,same,inRange⟩
    rw [head] at head'
    cases head'
    exact route_programs head wired listed same inRange small

-- Two IOAPICs of 24 pins, with interrupt 9 moved to the second, level and active low.
def twoIoapics : MadtInfo :=
  ⟨0,⟨[],Nat.zero_le _⟩,⟨[⟨0,0,0xFEC00000⟩,⟨1,24,0xFEC01000⟩],by decide⟩,⟨[⟨9,30,15⟩],by decide⟩⟩

def masked24 : Nat → Device := fun _ => ⟨0,fun index => if index = versionIndex then 23 * 2^16 else 2^16⟩

theorem masked24_pins (mmio : Nat) (writes : List Write) (desc : IoapicDesc) :
    maxRedirectionEntry ⟨mmio,masked24,writes⟩ desc = 23 := by
  have version : (masked24 desc.mmioPhys).registers versionIndex = 23 * 2^16 := by
    unfold masked24
    dsimp only
    rw [if_pos rfl]
  show maxRedirectionEntryOf ((masked24 desc.mmioPhys).registers versionIndex) = 23
  rw [version]
  decide

theorem twoIoapics_reached : ∃ machine,Reached twoIoapics machine ∧ machine.devices = masked24 := by
  have head : twoIoapics.ioapics.elements.head? = some ⟨0,0,0xFEC00000⟩ := rfl
  obtain ⟨after,done⟩ := initializeIoapic_done head 0 ⟨0,masked24,[]⟩
  exact ⟨_,.device masked24 (.initialized done),rfl⟩

theorem keyboard_routed : ∃ machine,Reached twoIoapics machine ∧ Routed twoIoapics machine 1 33 0 := by
  obtain ⟨⟨_,_,_⟩,reached,rfl⟩ := twoIoapics_reached
  exact ⟨_,reached,(routed_exact twoIoapics _ reached 1 33 0).mpr
    ⟨by decide,_,rfl,_,List.mem_cons_self,⟨rfl,rfl⟩,by decide,by rw [masked24_pins]; decide⟩⟩

-- The second's pin is programmed at index 76 of the first, which has 24 pins.
theorem second_ioapic_missed : ∃ machine,Reached twoIoapics machine ∧
    (twoIoapics.ioapics.elements.Pairwise fun a b => ∀ gsi,InRange machine a gsi → ¬InRange machine b gsi) ∧
    (∃ desc ∈ twoIoapics.ioapics.elements,InRange machine desc (gsiOf twoIoapics 9)) ∧
    ¬Routed twoIoapics machine 9 41 0 := by
  obtain ⟨⟨mmio,_,writes⟩,reached,rfl⟩ := twoIoapics_reached
  refine ⟨_,reached,?_,⟨⟨1,24,0xFEC01000⟩,by decide,by decide,by rw [masked24_pins]; decide⟩,fun routed => ?_⟩
  · refine List.pairwise_pair.mpr fun gsi low high => ?_
    obtain ⟨_,top⟩ := low
    obtain ⟨bottom,_⟩ := high
    rw [masked24_pins] at top
    simp only at top bottom
    omega
  · obtain ⟨first,head,wired⟩ := reached.wired
    obtain ⟨_,desc,listed,⟨window,_⟩,_,top⟩ := routed_first head wired routed
    rw [masked24_pins] at top
    rcases List.mem_cons.mp listed with rfl | later
    · exact absurd top (by decide)
    · cases head
      rw [List.mem_singleton.mp later] at window
      exact absurd window (by decide)

end Ioapic
