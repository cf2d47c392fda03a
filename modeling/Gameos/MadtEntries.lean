import Gameos.ByteMemory

-- gameos/advanced_configuration_and_power_interface.hh: the entries of the MADT.
namespace Acpi
open ByteMemory

def maxCpus : Nat := 64
def maxIoapics : Nat := 4
def maxInterruptOverrides : Nat := 32

-- Sizes of the packed structures.
def sdtHeaderSize : Nat := 36
def madtSize : Nat := 44
def entryHeaderSize : Nat := 2
def localApicSize : Nat := 8
def ioapicSize : Nat := 12
def isoSize : Nat := 10
def localX2ApicSize : Nat := 16

structure CpuDesc where
  apicId : Nat
  acpiProcessorId : Nat
  enabled : Bool
  isBsp : Bool
deriving DecidableEq, Repr

structure IoapicDesc where
  id : Nat
  gsiBase : Nat
  mmioPhys : Nat
deriving DecidableEq, Repr

structure IsaOverride where
  isaIrq : Nat
  gsi : Nat
  flags : Nat
deriving DecidableEq, Repr

structure BoundedArray (α : Type) (size : Nat) where
  elements : List α
  bounded : elements.length ≤ size

-- none where the assertion "push_back on full Bounded_Array" fails.
def BoundedArray.pushBack (array : BoundedArray α size) (element : α) : Option (BoundedArray α size) :=
  if room : array.elements.length < size then
    some ⟨array.elements ++ [element],by rw [List.length_append,List.length_singleton]; exact room⟩
  else none

structure MadtInfo where
  bspApicId : Nat
  cpus : BoundedArray CpuDesc maxCpus
  ioapics : BoundedArray IoapicDesc maxIoapics
  overrides : BoundedArray IsaOverride maxInterruptOverrides

inductive Fault where
  | assertion (message : String)
  -- a byte that is not one of the table's was read
  | outside (address : Nat)
  -- the turns given to the loop did not suffice
  | unfinished
deriving DecidableEq, Repr

def headerLength (m : Memory) (table : Nat) : Nat := read m (table + 4) 4

def checksumOk (m : Memory) (table size : Nat) : Bool :=
  (List.range size).foldl (fun sum i => (sum + (m (table + i)).toNat) % 256) 0 = 0

def sdtValid (m : Memory) (header : Nat) : Bool :=
  header ≠ 0 && sdtHeaderSize ≤ headerLength m header && checksumOk m header (headerLength m header)

def tableEnd (m : Memory) (table : Nat) : Nat := table + headerLength m table

def fetch (m : Memory) (table address width : Nat) : Except Fault Nat :=
  if table ≤ address ∧ address + width ≤ tableEnd m table then .ok (read m address width) else .error (.outside address)

def pushCpu (info : MadtInfo) (apicId acpiId : Nat) (enabled : Bool) : MadtInfo :=
  match info.cpus.pushBack ⟨apicId,acpiId,enabled,apicId = info.bspApicId⟩ with
  -- "MADT: cpu list full"
  | none => info
  | some cpus => { info with cpus := cpus }

def pushIoapic (info : MadtInfo) (desc : IoapicDesc) : Except Fault MadtInfo :=
  match info.ioapics.pushBack desc with
  | none => .error (.assertion "push_back on full Bounded_Array")
  | some ioapics => .ok { info with ioapics := ioapics }

def pushOverride (info : MadtInfo) (override : IsaOverride) : Except Fault MadtInfo :=
  match info.overrides.pushBack override with
  | none => .error (.assertion "push_back on full Bounded_Array")
  | some overrides => .ok { info with overrides := overrides }

-- The low bit of Local_APIC_Flags.
def enabledFlag (flags : Nat) : Bool := flags % 2 = 1

-- The switch over the type of an entry.
def parseEntry (m : Memory) (table entry type length : Nat) (info : MadtInfo) : Except Fault MadtInfo :=
  match type with
  | 0 =>
    if length < localApicSize then .ok info
    else do
      let apicId ← fetch m table (entry + 3) 1
      let uid ← fetch m table (entry + 2) 1
      let flags ← fetch m table (entry + 4) 4
      return pushCpu info apicId uid (enabledFlag flags)
  | 1 =>
    if length < ioapicSize then .ok info
    else do
      let id ← fetch m table (entry + 2) 1
      let gsiBase ← fetch m table (entry + 8) 4
      let address ← fetch m table (entry + 4) 4
      pushIoapic info ⟨id,gsiBase,address⟩
  | 2 =>
    if length < isoSize then .ok info
    else do
      let source ← fetch m table (entry + 3) 1
      let gsi ← fetch m table (entry + 4) 4
      let flags ← fetch m table (entry + 8) 2
      pushOverride info ⟨source,gsi,flags⟩
  | 9 =>
    if length < localX2ApicSize then .ok info
    else do
      let apicId ← fetch m table (entry + 4) 4
      let uid ← fetch m table (entry + 12) 4
      let flags ← fetch m table (entry + 8) 4
      return pushCpu info apicId uid (enabledFlag flags)
  | _ => .ok info

def parseLoop (m : Memory) (table : Nat) : Nat → Nat → MadtInfo → Except Fault MadtInfo
  | turns,entry,info =>
    if entry + entryHeaderSize ≤ tableEnd m table then
      match turns with
      | 0 => .error .unfinished
      | turns + 1 => do
        let type ← fetch m table entry 1
        let length ← fetch m table (entry + 1) 1
        -- "MADT: corrupt entry length < 2"
        if length < entryHeaderSize then return info
        -- "MADT: entry overruns table"
        else if tableEnd m table < entry + length then return info
        else
          let info ← parseEntry m table entry type length info
          parseLoop m table turns (entry + length) info
    else .ok info

def parseMadtEntries (m : Memory) (turns table : Nat) (info : MadtInfo) : Except Fault MadtInfo := do
  let _ ← fetch m table (table + 4) 4
  parseLoop m table turns (table + madtSize) info

section Format
variable (m : Memory)

def entryType (entry : Nat) : Nat := read m entry 1

def entryLength (entry : Nat) : Nat := read m (entry + 1) 1

-- An entry of at least its own header, and inside the table.
structure WellFormed (last entry : Nat) : Prop where
  header : entry + entryHeaderSize ≤ last
  long : entryHeaderSize ≤ entryLength m entry
  inside : entry + entryLength m entry ≤ last

-- The well-formed entries from an address on, up to the first that is none.
inductive Entries (last : Nat) : Nat → List Nat → Prop where
  | stop : ¬WellFormed m last entry → Entries last entry []
  | entry : WellFormed m last entry → Entries last (entry + entryLength m entry) rest → Entries last entry (entry :: rest)

-- What an entry of a known type and of that type's size says.
def cpuOf (bspApicId entry : Nat) : Option CpuDesc :=
  if entryType m entry = 0 ∧ localApicSize ≤ entryLength m entry then
    some ⟨read m (entry + 3) 1,read m (entry + 2) 1,enabledFlag (read m (entry + 4) 4),read m (entry + 3) 1 = bspApicId⟩
  else if entryType m entry = 9 ∧ localX2ApicSize ≤ entryLength m entry then
    some ⟨read m (entry + 4) 4,read m (entry + 12) 4,enabledFlag (read m (entry + 8) 4),read m (entry + 4) 4 = bspApicId⟩
  else none

def ioapicOf (entry : Nat) : Option IoapicDesc :=
  if entryType m entry = 1 ∧ ioapicSize ≤ entryLength m entry then
    some ⟨read m (entry + 2) 1,read m (entry + 8) 4,read m (entry + 4) 4⟩
  else none

def overrideOf (entry : Nat) : Option IsaOverride :=
  if entryType m entry = 2 ∧ isoSize ≤ entryLength m entry then
    some ⟨read m (entry + 3) 1,read m (entry + 4) 4,read m (entry + 8) 2⟩
  else none

-- What is in the lists after some entries.
structure Holds (info : MadtInfo) (entries : List Nat) (result : MadtInfo) : Prop where
  bspApicId : result.bspApicId = info.bspApicId
  cpus : result.cpus.elements = (info.cpus.elements ++ entries.filterMap (cpuOf m info.bspApicId)).take maxCpus
  ioapics : result.ioapics.elements = (info.ioapics.elements ++ entries.filterMap (ioapicOf m)).take maxIoapics
  overrides : result.overrides.elements = (info.overrides.elements ++ entries.filterMap (overrideOf m)).take maxInterruptOverrides

-- The loop ends, without an assertion or a read elsewhere, and leaves exactly the entries
-- of the well-formed prefix that the lists have room for.
def Recorded (table : Nat) (info : MadtInfo) : Prop :=
  ∃ entries result enough,Entries m (tableEnd m table) (table + madtSize) entries ∧ Holds m info entries result ∧
    ∀ turns,enough ≤ turns → parseMadtEntries m turns table info = .ok result

end Format

section Entries
variable {m : Memory} {table entry last : Nat} {info result : MadtInfo} {entries rest : List Nat}

theorem fetch_inside {address width : Nat} (low : table ≤ address) (high : address + width ≤ tableEnd m table) :
    fetch m table address width = .ok (read m address width) := if_pos ⟨low,high⟩

theorem ok_bind (value : α) (next : α → Except Fault β) : (Except.ok value >>= next) = next value := rfl

theorem pushBack_room (array : BoundedArray α n) (element : α) (room : array.elements.length < n) :
    ∃ longer,array.pushBack element = some longer ∧ longer.elements = array.elements ++ [element] :=
  ⟨_,dif_pos room,rfl⟩

theorem pushBack_full (array : BoundedArray α n) (element : α) (full : ¬array.elements.length < n) :
    array.pushBack element = none := dif_neg full

theorem BoundedArray.take_all (array : BoundedArray α n) : array.elements.take n = array.elements :=
  List.take_of_length_le array.bounded

-- What a full list drops now it would drop later as well.
theorem take_take_append (first second : List α) (n : Nat) : ((first.take n) ++ second).take n = (first ++ second).take n := by
  rw [List.take_append,List.take_append,List.take_take,Nat.min_self,List.length_take]
  by_cases short : first.length ≤ n
  · rw [Nat.min_eq_right short]
  · rw [Nat.min_eq_left (Nat.le_of_not_le short),Nat.sub_self,
      Nat.sub_eq_zero_of_le (Nat.le_of_not_le short)]

theorem Holds.nil (info : MadtInfo) : Holds m info [] info :=
  ⟨rfl,by rw [List.filterMap_nil,List.append_nil,info.cpus.take_all],
    by rw [List.filterMap_nil,List.append_nil,info.ioapics.take_all],
    by rw [List.filterMap_nil,List.append_nil,info.overrides.take_all]⟩

theorem Holds.unique {other : MadtInfo} (one : Holds m info entries result) (two : Holds m info entries other) :
    other = result := by
  obtain ⟨_,⟨_,_⟩,⟨_,_⟩,⟨_,_⟩⟩ := result
  obtain ⟨_,⟨_,_⟩,⟨_,_⟩,⟨_,_⟩⟩ := other
  obtain ⟨rfl,rfl,rfl,rfl⟩ := one
  obtain ⟨rfl,rfl,rfl,rfl⟩ := two
  rfl

theorem filterMap_cons_toList (f : Nat → Option α) (entry : Nat) (entries : List Nat) :
    (entry :: entries).filterMap f = (f entry).toList ++ entries.filterMap f := by
  cases here : f entry with
  | none => rw [List.filterMap_cons_none here]; rfl
  | some value => rw [List.filterMap_cons_some here]; rfl

theorem filterMap_one (f : Nat → Option α) (entry : Nat) : [entry].filterMap f = (f entry).toList := by
  rw [filterMap_cons_toList,List.filterMap_nil,List.append_nil]

-- An entry of another kind leaves a list as it is, one of its kind goes to its end.
theorem BoundedArray.unchanged {f : Nat → Option α} (array : BoundedArray α n) (none : f entry = none) :
    array.elements = (array.elements ++ [entry].filterMap f).take n := by
  rw [filterMap_one,none,Option.toList_none,List.append_nil,array.take_all]

theorem BoundedArray.grown {f : Nat → Option α} {array longer : BoundedArray α n} (some : f entry = some value)
    (elements : longer.elements = array.elements ++ [value]) : longer.elements = (array.elements ++ [entry].filterMap f).take n := by
  rw [filterMap_one,some,Option.toList_some,← elements,longer.take_all]

theorem Holds.cons {mid : MadtInfo} (first : Holds m info [entry] mid) (later : Holds m mid entries result) :
    Holds m info (entry :: entries) result := by
  obtain ⟨bsp,cpus,ioapics,overrides⟩ := first
  obtain ⟨bsp',cpus',ioapics',overrides'⟩ := later
  refine ⟨bsp'.trans bsp,?_,?_,?_⟩
  · rw [cpus',cpus,bsp,take_take_append,filterMap_one,filterMap_cons_toList,List.append_assoc]
  · rw [ioapics',ioapics,take_take_append,filterMap_one,filterMap_cons_toList,List.append_assoc]
  · rw [overrides',overrides,take_take_append,filterMap_one,filterMap_cons_toList,List.append_assoc]

-- An entry is of one type only.
theorem kinds (m : Memory) (bsp entry : Nat) :
    (cpuOf m bsp entry ≠ none → ioapicOf m entry = none ∧ overrideOf m entry = none) ∧
      (ioapicOf m entry ≠ none → overrideOf m entry = none) := by
  unfold cpuOf ioapicOf overrideOf
  constructor
  · intro cpu
    split at cpu
    case isTrue here =>
      rw [if_neg (by omega),if_neg (by omega)]
      exact ⟨rfl,rfl⟩
    case isFalse =>
      split at cpu
      case isTrue here =>
        rw [if_neg (by omega),if_neg (by omega)]
        exact ⟨rfl,rfl⟩
      case isFalse => exact absurd rfl cpu
  · intro ioapic
    split at ioapic
    case isTrue here => exact if_neg (by omega)
    case isFalse => exact absurd rfl ioapic

theorem pushCpu_holds {apicId uid : Nat} {enabled : Bool}
    (cpu : cpuOf m info.bspApicId entry = some ⟨apicId,uid,enabled,apicId = info.bspApicId⟩) :
    Holds m info [entry] (pushCpu info apicId uid enabled) ∧
      (pushCpu info apicId uid enabled).ioapics = info.ioapics ∧ (pushCpu info apicId uid enabled).overrides = info.overrides := by
  obtain ⟨ioapic,override⟩ := (kinds m info.bspApicId entry).1 (by rw [cpu]; exact Option.some_ne_none _)
  unfold pushCpu
  by_cases room : info.cpus.elements.length < maxCpus
  · obtain ⟨longer,pushed,elements⟩ := pushBack_room info.cpus ⟨apicId,uid,enabled,apicId = info.bspApicId⟩ room
    rw [pushed]
    exact ⟨⟨rfl,BoundedArray.grown cpu elements,info.ioapics.unchanged ioapic,info.overrides.unchanged override⟩,rfl,rfl⟩
  · rw [pushBack_full info.cpus _ room]
    have full : info.cpus.elements.length = maxCpus := Nat.le_antisymm info.cpus.bounded (Nat.le_of_not_lt room)
    refine ⟨⟨rfl,?_,info.ioapics.unchanged ioapic,info.overrides.unchanged override⟩,rfl,rfl⟩
    rw [List.take_append_of_le_length (Nat.le_of_eq full.symm),info.cpus.take_all]

-- What the switch does with a well-formed entry.
theorem parseEntry_eq (low : table ≤ entry) (formed : WellFormed m (tableEnd m table) entry) (info : MadtInfo) :
    parseEntry m table entry (entryType m entry) (entryLength m entry) info =
      match ioapicOf m entry,overrideOf m entry,cpuOf m info.bspApicId entry with
      | some desc,_,_ => pushIoapic info desc
      | none,some override,_ => pushOverride info override
      | none,none,some cpu => .ok (pushCpu info cpu.apicId cpu.acpiProcessorId cpu.enabled)
      | none,none,none => .ok info := by
  have inside := formed.inside
  have short {size : Nat} (some : ¬entryLength m entry < size) : entry + size ≤ tableEnd m table := by omega
  unfold parseEntry
  split
  case h_1 kind =>
    have ioapic : ioapicOf m entry = none := if_neg (by omega)
    have override : overrideOf m entry = none := if_neg (by omega)
    rw [ioapic,override]
    by_cases small : entryLength m entry < localApicSize
    · have cpu : cpuOf m info.bspApicId entry = none := by
        rw [cpuOf,if_neg (by omega),if_neg (by omega)]
      rw [if_pos small,cpu]
    · have fits := short small
      simp only [localApicSize] at fits
      have cpu : cpuOf m info.bspApicId entry = some ⟨read m (entry + 3) 1,read m (entry + 2) 1,
          enabledFlag (read m (entry + 4) 4),read m (entry + 3) 1 = info.bspApicId⟩ := if_pos ⟨kind,Nat.le_of_not_lt small⟩
      rw [if_neg small,cpu,fetch_inside (by omega) (by omega),fetch_inside (by omega) (by omega),
        fetch_inside (by omega) (by omega)]
      rfl
  case h_2 kind =>
    by_cases small : entryLength m entry < ioapicSize
    · have ioapic : ioapicOf m entry = none := if_neg (by omega)
      have override : overrideOf m entry = none := if_neg (by omega)
      have cpu : cpuOf m info.bspApicId entry = none := by
        rw [cpuOf,if_neg (by omega),if_neg (by omega)]
      rw [if_pos small,ioapic,override,cpu]
    · have fits := short small
      simp only [ioapicSize] at fits
      have ioapic : ioapicOf m entry = some ⟨read m (entry + 2) 1,read m (entry + 8) 4,read m (entry + 4) 4⟩ :=
        if_pos ⟨kind,Nat.le_of_not_lt small⟩
      rw [if_neg small,ioapic,fetch_inside (by omega) (by omega),fetch_inside (by omega) (by omega),
        fetch_inside (by omega) (by omega)]
      rfl
  case h_3 kind =>
    have ioapic : ioapicOf m entry = none := if_neg (by omega)
    by_cases small : entryLength m entry < isoSize
    · have override : overrideOf m entry = none := if_neg (by omega)
      have cpu : cpuOf m info.bspApicId entry = none := by
        rw [cpuOf,if_neg (by omega),if_neg (by omega)]
      rw [if_pos small,ioapic,override,cpu]
    · have fits := short small
      simp only [isoSize] at fits
      have override : overrideOf m entry = some ⟨read m (entry + 3) 1,read m (entry + 4) 4,read m (entry + 8) 2⟩ :=
        if_pos ⟨kind,Nat.le_of_not_lt small⟩
      rw [if_neg small,ioapic,override,fetch_inside (by omega) (by omega),fetch_inside (by omega) (by omega),
        fetch_inside (by omega) (by omega)]
      rfl
  case h_4 kind =>
    have ioapic : ioapicOf m entry = none := if_neg (by omega)
    have override : overrideOf m entry = none := if_neg (by omega)
    rw [ioapic,override]
    by_cases small : entryLength m entry < localX2ApicSize
    · have cpu : cpuOf m info.bspApicId entry = none := by
        rw [cpuOf,if_neg (by omega),if_neg (by omega)]
      rw [if_pos small,cpu]
    · have fits := short small
      simp only [localX2ApicSize] at fits
      have cpu : cpuOf m info.bspApicId entry = some ⟨read m (entry + 4) 4,read m (entry + 12) 4,
          enabledFlag (read m (entry + 8) 4),read m (entry + 4) 4 = info.bspApicId⟩ := by
        rw [cpuOf,if_neg (by omega),if_pos ⟨kind,Nat.le_of_not_lt small⟩]
      rw [if_neg small,cpu,fetch_inside (by omega) (by omega),fetch_inside (by omega) (by omega),
        fetch_inside (by omega) (by omega)]
      rfl
  case h_5 zero one two nine =>
    have ioapic : ioapicOf m entry = none := if_neg fun here => one here.1
    have override : overrideOf m entry = none := if_neg fun here => two here.1
    have cpu : cpuOf m info.bspApicId entry = none := by
      rw [cpuOf,if_neg fun here => zero here.1,if_neg fun here => nine here.1]
    rw [ioapic,override,cpu]

-- The lists of IOAPICs and overrides have room for the one this entry says, if any.
def Room (m : Memory) (info : MadtInfo) (entries : List Nat) : Prop :=
  info.ioapics.elements.length + (entries.filterMap (ioapicOf m)).length ≤ maxIoapics ∧
    info.overrides.elements.length + (entries.filterMap (overrideOf m)).length ≤ maxInterruptOverrides

theorem pushIoapic_outcome (ioapic : ioapicOf m entry = some desc) (info : MadtInfo) :
    (∃ next,pushIoapic info desc = .ok next ∧ Holds m info [entry] next ∧
        next.ioapics.elements = info.ioapics.elements ++ [desc] ∧ next.overrides = info.overrides) ∨
      (maxIoapics ≤ info.ioapics.elements.length ∧ ∃ message,pushIoapic info desc = .error (.assertion message)) := by
  have override : overrideOf m entry = none := (kinds m 0 entry).2 (by rw [ioapic]; exact Option.some_ne_none _)
  have cpu : cpuOf m info.bspApicId entry = none := by
    by_contra some
    rw [((kinds m info.bspApicId entry).1 some).1] at ioapic
    cases ioapic
  unfold pushIoapic
  by_cases room : info.ioapics.elements.length < maxIoapics
  · obtain ⟨longer,pushed,elements⟩ := pushBack_room info.ioapics desc room
    rw [pushed]
    exact .inl ⟨_,rfl,⟨rfl,info.cpus.unchanged cpu,BoundedArray.grown ioapic elements,info.overrides.unchanged override⟩,elements,rfl⟩
  · rw [pushBack_full info.ioapics _ room]
    exact .inr ⟨Nat.le_of_not_lt room,_,rfl⟩

theorem pushOverride_outcome (ioapic : ioapicOf m entry = none) (override : overrideOf m entry = some desc) (info : MadtInfo) :
    (∃ next,pushOverride info desc = .ok next ∧ Holds m info [entry] next ∧
        next.ioapics = info.ioapics ∧ next.overrides.elements = info.overrides.elements ++ [desc]) ∨
      (maxInterruptOverrides ≤ info.overrides.elements.length ∧
        ∃ message,pushOverride info desc = .error (.assertion message)) := by
  have cpu : cpuOf m info.bspApicId entry = none := by
    by_contra some
    rw [((kinds m info.bspApicId entry).1 some).2] at override
    cases override
  unfold pushOverride
  by_cases room : info.overrides.elements.length < maxInterruptOverrides
  · obtain ⟨longer,pushed,elements⟩ := pushBack_room info.overrides desc room
    rw [pushed]
    exact .inl ⟨_,rfl,⟨rfl,info.cpus.unchanged cpu,info.ioapics.unchanged ioapic,BoundedArray.grown override elements⟩,rfl,elements⟩
  · rw [pushBack_full info.overrides _ room]
    exact .inr ⟨Nat.le_of_not_lt room,_,rfl⟩

-- One entry: recorded, or an assertion where its list is full.
theorem parseEntry_outcome (low : table ≤ entry) (formed : WellFormed m (tableEnd m table) entry) (info : MadtInfo) :
    (∃ next,parseEntry m table entry (entryType m entry) (entryLength m entry) info = .ok next ∧ Holds m info [entry] next ∧
        ∀ rest,Room m info (entry :: rest) ↔ Room m next rest) ∨
      ((∀ rest,¬Room m info (entry :: rest)) ∧
        ∃ message,parseEntry m table entry (entryType m entry) (entryLength m entry) info = .error (.assertion message)) := by
  rw [parseEntry_eq low formed]
  unfold Room
  simp only [filterMap_cons_toList,List.length_append]
  cases ioapic : ioapicOf m entry with
  | some desc =>
      have override : overrideOf m entry = none := (kinds m 0 entry).2 (by rw [ioapic]; exact Option.some_ne_none _)
      dsimp only
      rw [override]
      obtain ⟨next,pushed,holds,ioapics,overrides⟩ | ⟨full,message,failed⟩ := pushIoapic_outcome ioapic info
      · refine .inl ⟨next,pushed,holds,fun rest => ?_⟩
        rw [ioapics,overrides,List.length_append,List.length_singleton]
        simp only [Option.toList_some,Option.toList_none,List.length_singleton,List.length_nil]
        omega
      · refine .inr ⟨fun rest room => ?_,message,failed⟩
        simp only [Option.toList_some,List.length_singleton] at room
        omega
  | none =>
      cases override : overrideOf m entry with
      | some desc =>
          dsimp only
          obtain ⟨next,pushed,holds,ioapics,overrides⟩ | ⟨full,message,failed⟩ := pushOverride_outcome ioapic override info
          · refine .inl ⟨next,pushed,holds,fun rest => ?_⟩
            rw [ioapics,overrides,List.length_append,List.length_singleton]
            simp only [Option.toList_some,Option.toList_none,List.length_singleton,List.length_nil]
            omega
          · refine .inr ⟨fun rest room => ?_,message,failed⟩
            simp only [Option.toList_some,List.length_singleton] at room
            omega
      | none =>
          simp only [Option.toList_none,List.length_nil,Nat.zero_add]
          cases cpu : cpuOf m info.bspApicId entry with
          | none =>
              have same : Holds m info [entry] info :=
                ⟨rfl,info.cpus.unchanged cpu,info.ioapics.unchanged ioapic,info.overrides.unchanged override⟩
              exact .inl ⟨info,rfl,same,fun rest => Iff.rfl⟩
          | some desc =>
              have mine : desc = ⟨desc.apicId,desc.acpiProcessorId,desc.enabled,desc.apicId = info.bspApicId⟩ := by
                unfold cpuOf at cpu
                split at cpu
                · cases cpu
                  rfl
                · split at cpu
                  · cases cpu
                    rfl
                  · cases cpu
              rw [mine] at cpu
              obtain ⟨holds,ioapics,overrides⟩ := pushCpu_holds cpu
              refine .inl ⟨_,rfl,holds,fun rest => ?_⟩
              rw [ioapics,overrides]

-- The walk over a well-formed prefix.
theorem parseLoop_outcome (prefixed : Entries m (tableEnd m table) entry entries) (low : table ≤ entry) (info : MadtInfo)
    (turns : Nat) (enough : entries.length < turns) :
    (Room m info entries ∧ ∃ result,parseLoop m table turns entry info = .ok result ∧ Holds m info entries result) ∨
      (¬Room m info entries ∧ ∃ message,parseLoop m table turns entry info = .error (.assertion message)) := by
  induction prefixed generalizing info turns with
  | @stop entry none =>
      left
      refine ⟨⟨info.ioapics.bounded,info.overrides.bounded⟩,info,?_,.nil info⟩
      obtain ⟨turns,rfl⟩ := Nat.exists_eq_add_one_of_ne_zero (Nat.ne_of_gt enough)
      unfold parseLoop
      split
      case isFalse => rfl
      case isTrue header =>
        simp only [entryHeaderSize] at header
        dsimp only
        rw [fetch_inside low (by omega),ok_bind,fetch_inside (by omega) (by omega),ok_bind]
        split
        · rfl
        · split
          · rfl
          · exact absurd ⟨header,Nat.le_of_not_lt ‹_›,Nat.le_of_not_lt ‹_›⟩ none
  | @entry entry rest formed later ih =>
      obtain ⟨turns,rfl⟩ := Nat.exists_eq_add_one_of_ne_zero (Nat.ne_of_gt (Nat.lt_of_le_of_lt (Nat.zero_le _) enough))
      have header := formed.header
      have long := formed.long
      have inside := formed.inside
      have step : parseLoop m table (turns + 1) entry info =
          parseEntry m table entry (entryType m entry) (entryLength m entry) info >>= fun next =>
            parseLoop m table turns (entry + entryLength m entry) next := by
        rw [parseLoop,if_pos header]
        simp only [entryHeaderSize] at header
        rw [fetch_inside low (by omega),ok_bind,fetch_inside (by omega) (by omega),ok_bind]
        show ite (entryLength m entry < entryHeaderSize) _ _ = _
        rw [if_neg (by omega)]
        show ite (tableEnd m table < entry + entryLength m entry) _ _ = _
        rw [if_neg (by omega)]
        rfl
      rw [step]
      obtain ⟨next,parsed,holds,room⟩ | ⟨full,message,failed⟩ := parseEntry_outcome low formed info
      · rw [parsed,ok_bind]
        obtain ⟨more,result,done,holds'⟩ | ⟨full,message,failed⟩ :=
          ih (by omega) next turns (Nat.lt_of_succ_lt_succ enough)
        · exact .inl ⟨(room rest).mpr more,result,done,holds.cons holds'⟩
        · exact .inr ⟨fun more => full ((room rest).mp more),message,failed⟩
      · rw [failed]
        exact .inr ⟨full rest,message,rfl⟩

theorem entries_exist (m : Memory) (last entry : Nat) : ∃ entries,Entries m last entry entries := by
  induction size : last - entry using Nat.strongRecOn generalizing entry with
  | ind n ih =>
      by_cases formed : WellFormed m last entry
      · have long := formed.long
        have inside := formed.inside
        simp only [entryHeaderSize] at long
        obtain ⟨rest,later⟩ := ih (last - (entry + entryLength m entry)) (by omega) (entry + entryLength m entry) rfl
        exact ⟨entry :: rest,.entry formed later⟩
      · exact ⟨[],.stop formed⟩

theorem entries_unique (one : Entries m last entry entries) (other : Entries m last entry rest) : entries = rest := by
  induction one generalizing rest with
  | stop none =>
      cases other with
      | stop => rfl
      | entry formed => exact absurd formed none
  | entry formed _ ih =>
      cases other with
      | stop none => exact absurd formed none
      | entry _ later => rw [ih later]

end Entries

section Tables
variable {m : Memory} {table : Nat} {info : MadtInfo}

theorem parse_starts (valid : sdtValid m table = true) (turns : Nat) :
    parseMadtEntries m turns table info = parseLoop m table turns (table + madtSize) info := by
  have length : sdtHeaderSize ≤ headerLength m table := by
    unfold sdtValid at valid
    simp only [Bool.and_eq_true,decide_eq_true_eq] at valid
    exact valid.1.2
  unfold parseMadtEntries
  simp only [sdtHeaderSize] at length
  rw [fetch_inside (by omega) (by unfold tableEnd; omega),ok_bind]

theorem recorded_room (valid : sdtValid m table = true) (recorded : Recorded m table info)
    (prefixed : Entries m (tableEnd m table) (table + madtSize) entries) : Room m info entries := by
  obtain ⟨_,result,enough,_,_,done⟩ := recorded
  obtain ⟨room,_⟩ | ⟨_,message,failed⟩ :=
    parseLoop_outcome prefixed (Nat.le_add_right _ _) info (max enough (entries.length + 1)) (by omega)
  · exact room
  · have returned := done (max enough (entries.length + 1)) (by omega)
    rw [parse_starts valid,failed] at returned
    cases returned

end Tables

-- Every valid table is recorded but those with more IOAPICs or overrides than the lists hold.
theorem madt_recorded_exact (m : Memory) (table : Nat) (valid : sdtValid m table = true) (info : MadtInfo) :
    Recorded m table info ↔ ∀ entries,Entries m (tableEnd m table) (table + madtSize) entries → Room m info entries := by
  constructor
  · exact fun recorded entries prefixed => recorded_room valid recorded prefixed
  · intro room
    obtain ⟨entries,prefixed⟩ := entries_exist m (tableEnd m table) (table + madtSize)
    have outcome (turns : Nat) (enough : entries.length < turns) :=
      parseLoop_outcome prefixed (Nat.le_add_right _ _) info turns enough
    obtain ⟨_,result,_,holds⟩ | ⟨full,_⟩ := outcome (entries.length + 1) (Nat.lt_succ_self _)
    · refine ⟨entries,result,entries.length + 1,prefixed,holds,fun turns enough => ?_⟩
      obtain ⟨_,other,done,again⟩ | ⟨full,_⟩ := outcome turns enough
      · rw [parse_starts valid,done,holds.unique again]
      · exact absurd (room entries prefixed) full
    · exact absurd (room entries prefixed) full

-- A table at 4096 with so many IOAPICs, all of them alike.
def ioapicTable (count length checksum : UInt8) : Memory := fun x =>
  if 4096 ≤ x then
    ([0,0,0,0,length,0,0,0,0,checksum] ++ List.replicate 34 0 ++
      (List.replicate count.toNat (1 :: 12 :: List.replicate 10 0)).flatten).getD (x - 4096) 0
  else 0

def noEntries : MadtInfo := ⟨0,⟨[],Nat.zero_le _⟩,⟨[],Nat.zero_le _⟩,⟨[],Nat.zero_le _⟩⟩

set_option maxRecDepth 4000 in
theorem madt_recorded_one : Recorded (ioapicTable 1 56 187) 4096 noEntries := by
  refine (madt_recorded_exact _ 4096 (by decide) noEntries).mpr fun entries prefixed => ?_
  have one : Entries (ioapicTable 1 56 187) (tableEnd (ioapicTable 1 56 187) 4096) (4096 + madtSize) [4140] :=
    .entry ⟨by decide,by decide,by decide⟩ (.stop fun formed => absurd formed.header (by decide))
  rw [entries_unique prefixed one]
  exact ⟨by decide,by decide⟩

set_option maxRecDepth 4000 in
-- A fifth IOAPIC trips the assertion of push_back; a CPU too many would be dropped.
theorem fifth_ioapic_asserts : sdtValid (ioapicTable 5 104 87) 4096 = true ∧
    ¬Recorded (ioapicTable 5 104 87) 4096 noEntries := by
  refine ⟨by decide,fun recorded => ?_⟩
  have five : Entries (ioapicTable 5 104 87) (tableEnd (ioapicTable 5 104 87) 4096) (4096 + madtSize)
      [4140,4152,4164,4176,4188] :=
    .entry ⟨by decide,by decide,by decide⟩ (.entry ⟨by decide,by decide,by decide⟩ (.entry ⟨by decide,by decide,by decide⟩
      (.entry ⟨by decide,by decide,by decide⟩ (.entry ⟨by decide,by decide,by decide⟩
        (.stop fun formed => absurd formed.header (by decide))))))
  have room := (recorded_room (by decide) recorded five).1
  exact absurd room (by decide)

end Acpi
