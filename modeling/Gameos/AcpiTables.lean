import Mathlib.Algebra.BigOperators.Ring.Finset
import Gameos.BootInformation
import Gameos.MadtEntries

-- gameos/advanced_configuration_and_power_interface.hh: from the boot information to the MADT.
namespace Acpi
open ByteMemory AddressWalks
open BootInformation (findMultiboot2Tag findLoop firstTag nextTag moreTags typeOf payload)

def rsdpV1Size : Nat := 20

def rsdpSignature : List UInt8 := [0x52,0x53,0x44,0x20,0x50,0x54,0x52,0x20]
def madtSignature : List UInt8 := [0x41,0x50,0x49,0x43]
def rsdtSignature : List UInt8 := [0x52,0x53,0x44,0x54]
def xsdtSignature : List UInt8 := [0x58,0x53,0x44,0x54]

def acpiOldRsdp : Nat := 14
def acpiNewRsdp : Nat := 15

def kstdMemeq (m : Memory) (bytes : Nat) : List UInt8 → Bool
  | [] => true
  | byte :: rest => m bytes == byte && kstdMemeq m (bytes + 1) rest

-- The fields of the packed RSDP.
def revision (m : Memory) (rsdp : Nat) : Nat := read m (rsdp + 15) 1
def rsdtAddress (m : Memory) (rsdp : Nat) : Nat := read m (rsdp + 16) 4
def rsdpLength (m : Memory) (rsdp : Nat) : Nat := read m (rsdp + 20) 4
def xsdtAddress (m : Memory) (rsdp : Nat) : Nat := read m (rsdp + 24) 8

def rsdpValid (m : Memory) (rsdp : Nat) : Bool :=
  if rsdp = 0 then false
  else if kstdMemeq m rsdp rsdpSignature = false then false
  else if checksumOk m rsdp rsdpV1Size = false then false
  else if 2 ≤ revision m rsdp then
    if rsdpLength m rsdp < rsdpV1Size then false
    else checksumOk m rsdp (rsdpLength m rsdp)
  else true

-- Both ranges end at 1 MiB or before it, so no sum wraps.
def findRsdpInRange (m : Memory) (addr fin : Nat) : Option Nat :=
  if addr + rsdpV1Size ≤ fin then
    if rsdpValid m addr then some addr else findRsdpInRange m (addr + 16) fin
  else none
termination_by fin - addr
decreasing_by simp only [rsdpV1Size] at *; omega

def extendedBiosDataAreaBase (m : Memory) : Nat := read m 0x40E 2 * 16

def findRsdpBiosScan (m : Memory) : Option Nat :=
  let base := extendedBiosDataAreaBase m
  let inArea := if base ≠ 0 then findRsdpInRange m base (base + 1024) else none
  match inArea with
  | some rsdp => some rsdp
  | none => findRsdpInRange m 0xE0000 0x100000

def tagPayload (m : Memory) (turns type mbi : Nat) : Except Fault (Option Nat) :=
  match (findMultiboot2Tag m turns type mbi).result with
  | .error _ => .error .unfinished
  | .ok tag => .ok (tag.map payload)

def findRsdp (m : Memory) (turns mbi : Nat) : Except Fault (Option Nat) := do
  let new ← tagPayload m turns acpiNewRsdp mbi
  match new.filter (rsdpValid m) with
  | some rsdp => return some rsdp
  | none =>
    let old ← tagPayload m turns acpiOldRsdp mbi
    match old.filter (rsdpValid m) with
    | some rsdp => return some rsdp
    | none => return findRsdpBiosScan m

-- for (ssize i = 0; i < entry_count; ++i), with so many entries left.
def entryLoop (m : Memory) (width : Nat) : Nat → Nat → Option Nat
  | 0,_ => none
  | count + 1,entry =>
    let header := read m entry width
    if sdtValid m header = true ∧ kstdMemeq m header madtSignature = true then some header
    else entryLoop m width count (entry + width)

-- The tables differ in their signatures and in the width of their entries.
def findMadtIn (m : Memory) (signature : List UInt8) (width sdt : Nat) : Option Nat :=
  if sdtValid m sdt = false then none
  else if kstdMemeq m sdt signature = false then none
  else entryLoop m width ((headerLength m sdt - sdtHeaderSize) / width) (sdt + sdtHeaderSize)

def findMadtInRsdt (m : Memory) (rsdt : Nat) : Option Nat := findMadtIn m rsdtSignature 4 rsdt
def findMadtInXsdt (m : Memory) (xsdt : Nat) : Option Nat := findMadtIn m xsdtSignature 8 xsdt

def findMadt (m : Memory) (rsdp : Nat) : Option Nat :=
  let extended := if 2 ≤ revision m rsdp ∧ xsdtAddress m rsdp ≠ 0 then findMadtInXsdt m (xsdtAddress m rsdp) else none
  match extended with
  | some table => some table
  | none => if rsdtAddress m rsdp ≠ 0 then findMadtInRsdt m (rsdtAddress m rsdp) else none

structure ParsedMadt where
  valid : Bool
  localApicAddress : Nat
  flags : Nat
  info : MadtInfo

def emptyInfo (bspApicId : Nat) : MadtInfo := ⟨bspApicId,⟨[],Nat.zero_le _⟩,⟨[],Nat.zero_le _⟩,⟨[],Nat.zero_le _⟩⟩

def parsedMadt (m : Memory) (table : Nat) (info : MadtInfo) : ParsedMadt :=
  ⟨true,read m (table + 36) 4,read m (table + 40) 4,info⟩

-- The assertions behind the entries.
def checkedMadt (parsed : ParsedMadt) : Except Fault ParsedMadt :=
  if parsed.info.cpus.elements.length < 1 then .error (.assertion "MADT listed no CPUs")
  else if parsed.info.ioapics.elements.length < 1 then .error (.assertion "MADT listed no IOAPIC")
  else .ok parsed

def parseTable (m : Memory) (turns table bspApicId : Nat) : Except Fault ParsedMadt :=
  if sdtValid m table = false then .error (.assertion "ACPI MADT checksum bad")
  else if kstdMemeq m table madtSignature = false then .error (.assertion "ACPI MADT signature bad")
  else do
    let info ← parseMadtEntries m turns table (emptyInfo bspApicId)
    checkedMadt (parsedMadt m table info)

def parseMadt (m : Memory) (turns mbi bspApicId : Nat) : Except Fault ParsedMadt := do
  match ← findRsdp m turns mbi with
  | none => .error (.assertion "ACPI RSDP not found")
  | some rsdp =>
    match findMadt m rsdp with
    | none => .error (.assertion "ACPI MADT not found")
    | some table => parseTable m turns table bspApicId

section Format
variable (m : Memory)

def SumsToZero (address size : Nat) : Prop := (∑ i ∈ Finset.range size,(m (address + i)).toNat) % 256 = 0

def Signed (signature : List UInt8) (address : Nat) : Prop := ∀ (i : Nat) byte,signature[i]? = some byte → m (address + i) = byte

structure Rsdp (address : Nat) : Prop where
  present : address ≠ 0
  signature : Signed m rsdpSignature address
  first : SumsToZero m address rsdpV1Size
  whole : 2 ≤ revision m address → rsdpV1Size ≤ rsdpLength m address ∧ SumsToZero m address (rsdpLength m address)

structure Sdt (signature : List UInt8) (address : Nat) : Prop where
  present : address ≠ 0
  long : sdtHeaderSize ≤ headerLength m address
  sum : SumsToZero m address (headerLength m address)
  signature : Signed m signature address

-- The addresses of a range that an RSDP may start at.
def paragraphs (start fin : Nat) : List Nat := (List.range ((fin - start + 16 - rsdpV1Size) / 16)).map fun i => start + i * 16

def firstPayload (tags : List Nat) (type : Nat) : List Nat := ((tags.find? fun tag => typeOf m tag = type).map payload).toList

-- Where an RSDP is looked for: the first tag of each kind, then low memory.
def rsdpCandidates (tags : List Nat) : List Nat :=
  firstPayload m tags acpiNewRsdp ++ (firstPayload m tags acpiOldRsdp ++
    ((if extendedBiosDataAreaBase m ≠ 0 then paragraphs (extendedBiosDataAreaBase m) (extendedBiosDataAreaBase m + 1024) else []) ++
      paragraphs 0xE0000 0x100000))

-- What the entries of a table point to.
def pointers (width sdt : Nat) : List Nat :=
  (List.range ((headerLength m sdt - sdtHeaderSize) / width)).map fun i => read m (sdt + sdtHeaderSize + i * width) width

end Format

-- The first of a list that something holds of.
structure First {α : Type} (holds : α → Prop) (list : List α) (a : α) : Prop where
  here : holds a
  before : ∃ before after,list = before ++ a :: after ∧ ∀ b ∈ before,¬ holds b

section Checks
variable {m : Memory} {address : Nat}

theorem sum_bytes (m : Memory) (address size : Nat) :
    (List.range size).foldl (fun sum i => (sum + (m (address + i)).toNat) % 256) 0 =
      (∑ i ∈ Finset.range size,(m (address + i)).toNat) % 256 := by
  induction size with
  | zero => rfl
  | succ size ih =>
      rw [List.range_succ,List.foldl_append,ih,Finset.sum_range_succ,List.foldl_cons,List.foldl_nil,Nat.mod_add_mod]

theorem checksumOk_exact (m : Memory) (address size : Nat) : checksumOk m address size = true ↔ SumsToZero m address size := by
  unfold checksumOk SumsToZero
  rw [sum_bytes,decide_eq_true_iff]

theorem memeq_exact (signature : List UInt8) : kstdMemeq m address signature = true ↔ Signed m signature address := by
  induction signature generalizing address with
  | nil => exact ⟨fun _ i byte here => by simp at here,fun _ => rfl⟩
  | cons first rest ih =>
      rw [kstdMemeq,Bool.and_eq_true,beq_iff_eq,ih]
      constructor
      · rintro ⟨head,tail⟩ i byte here
        cases i with
        | zero => exact head.trans (Option.some.inj here)
        | succ i =>
            rw [Nat.add_comm i 1,← Nat.add_assoc]
            exact tail i byte here
      · intro signed
        refine ⟨signed 0 first rfl,fun i byte here => ?_⟩
        rw [Nat.add_assoc,Nat.add_comm 1 i]
        exact signed (i + 1) byte here

theorem rsdpValid_exact : rsdpValid m address = true ↔ Rsdp m address := by
  unfold rsdpValid
  constructor
  · intro valid
    split at valid
    · cases valid
    · rename_i present
      split at valid
      · cases valid
      · rename_i signature
        split at valid
        · cases valid
        · rename_i first
          refine ⟨present,(memeq_exact _).mp (Bool.of_not_eq_false signature),(checksumOk_exact ..).mp (Bool.of_not_eq_false first),
            fun extended => ?_⟩
          rw [if_pos extended] at valid
          split at valid
          · cases valid
          · rename_i long
            exact ⟨Nat.le_of_not_lt long,(checksumOk_exact ..).mp valid⟩
  · intro rsdp
    have signature : kstdMemeq m address rsdpSignature = true := (memeq_exact _).mpr rsdp.signature
    have first : checksumOk m address rsdpV1Size = true := (checksumOk_exact ..).mpr rsdp.first
    rw [if_neg rsdp.present,if_neg (ne_false_of_eq_true signature),if_neg (ne_false_of_eq_true first)]
    split
    · rename_i extended
      obtain ⟨long,whole⟩ := rsdp.whole extended
      rw [if_neg (Nat.not_lt.mpr long)]
      exact (checksumOk_exact ..).mpr whole
    · rfl

theorem sdtValid_exact (signature : List UInt8) :
    sdtValid m address = true ∧ kstdMemeq m address signature = true ↔ Sdt m signature address := by
  unfold sdtValid
  simp only [Bool.and_eq_true,decide_eq_true_eq,checksumOk_exact,memeq_exact]
  constructor
  · rintro ⟨⟨⟨present,long⟩,sum⟩,signed⟩
    exact ⟨present,long,sum,signed⟩
  · intro sdt
    exact ⟨⟨⟨sdt.present,sdt.long⟩,sdt.sum⟩,sdt.signature⟩

instance (signature : List UInt8) : Decidable (Sdt m signature address) := decidable_of_iff _ (sdtValid_exact signature)

theorem find_first {α : Type} {holds : α → Prop} {check : α → Bool} (exact : ∀ a,check a = true ↔ holds a) (list : List α) :
    (list.find? check = none → ∀ a ∈ list,¬ holds a) ∧ ∀ a,list.find? check = some a → First holds list a := by
  constructor
  · intro none a member here
    exact List.find?_eq_none.mp none a member ((exact a).mpr here)
  · intro a found
    obtain ⟨here,before,after,split,fails⟩ := List.find?_eq_some_iff_append.mp found
    refine ⟨(exact a).mp here,before,after,split,fun b member holds => ?_⟩
    have failed := fails b member
    rw [(exact b).mpr holds] at failed
    cases failed

end Checks

section Searches
variable {m : Memory} {mbi turns : Nat} {tags : List Nat}

theorem map_range_succ {α : Type} (f : Nat → α) (n : Nat) : (List.range (n + 1)).map f = f 0 :: (List.range n).map fun i => f (i + 1) := by
  rw [List.range_succ_eq_map,List.map_cons,List.map_map]
  rfl

theorem paragraphs_cons {start fin : Nat} (inside : start + rsdpV1Size ≤ fin) :
    paragraphs start fin = start :: paragraphs (start + 16) fin := by
  have count : (fin - start + 16 - rsdpV1Size) / 16 = (fin - (start + 16) + 16 - rsdpV1Size) / 16 + 1 := by
    simp only [rsdpV1Size] at inside ⊢
    omega
  unfold paragraphs
  rw [count,map_range_succ,Nat.zero_mul,Nat.add_zero]
  congr 1
  refine List.map_congr_left fun i _ => ?_
  omega

theorem paragraphs_nil {start fin : Nat} (outside : ¬ start + rsdpV1Size ≤ fin) : paragraphs start fin = [] := by
  have count : (fin - start + 16 - rsdpV1Size) / 16 = 0 := by
    simp only [rsdpV1Size] at outside ⊢
    omega
  unfold paragraphs
  rw [count]
  rfl

theorem findRsdpInRange_first (m : Memory) (start fin : Nat) :
    findRsdpInRange m start fin = (paragraphs start fin).find? (rsdpValid m) := by
  induction start using findRsdpInRange.induct m fin with
  | case1 start inside valid =>
      rw [findRsdpInRange,if_pos inside,if_pos valid,paragraphs_cons inside,List.find?_cons_of_pos valid]
  | case2 start inside invalid ih =>
      rw [findRsdpInRange,if_pos inside,if_neg invalid,paragraphs_cons inside,List.find?_cons_of_neg invalid,ih]
  | case3 start outside =>
      rw [findRsdpInRange,if_neg outside,paragraphs_nil outside]
      rfl

theorem findRsdpBiosScan_first (m : Memory) :
    findRsdpBiosScan m = ((if extendedBiosDataAreaBase m ≠ 0 then
      paragraphs (extendedBiosDataAreaBase m) (extendedBiosDataAreaBase m + 1024) else []) ++ paragraphs 0xE0000 0x100000).find? (rsdpValid m) := by
  have area : (if extendedBiosDataAreaBase m ≠ 0 then
      findRsdpInRange m (extendedBiosDataAreaBase m) (extendedBiosDataAreaBase m + 1024) else none) =
        (if extendedBiosDataAreaBase m ≠ 0 then
          paragraphs (extendedBiosDataAreaBase m) (extendedBiosDataAreaBase m + 1024) else []).find? (rsdpValid m) := by
    split
    · exact findRsdpInRange_first ..
    · rfl
  unfold findRsdpBiosScan
  dsimp only
  rw [area,findRsdpInRange_first,List.find?_append]
  generalize List.find? (rsdpValid m) (if extendedBiosDataAreaBase m ≠ 0 then _ else _) = found
  generalize List.find? (rsdpValid m) (paragraphs 0xE0000 0x100000) = scanned
  cases found <;> rfl

-- The search ends at the first tag of its type.
theorem findLoop_first (visits : Visits (moreTags m mbi) (nextTag m) tag tags) (enough : tags.length ≤ turns) (type : Nat) :
    (findLoop m type mbi turns tag).result = .ok (tags.find? fun tag => typeOf m tag = type) := by
  induction visits generalizing turns with
  | stop none =>
      cases turns <;> (unfold findLoop; rw [if_neg (by rw [none]; exact Bool.false_ne_true)]; rfl)
  | @visit tag rest some later ih =>
      cases turns with
      | zero => exact absurd enough (Nat.not_succ_le_zero _)
      | succ turns =>
          unfold findLoop
          rw [if_pos some,Traced.bind_of_ok (by rfl)]
          by_cases here : typeOf m tag = type
          · rw [List.find?_cons_of_pos (by rw [decide_eq_true_iff]; exact here),if_pos here]
            rfl
          · rw [List.find?_cons_of_neg (by rw [decide_eq_true_iff]; exact here),if_neg here]
            exact ih (Nat.le_of_succ_le_succ enough)

theorem tagPayload_first (visits : Visits (moreTags m mbi) (nextTag m) (firstTag mbi) tags) (enough : tags.length ≤ turns) (type : Nat) :
    ∃ tag,tagPayload m turns type mbi = .ok tag ∧ tag.toList = firstPayload m tags type := by
  unfold tagPayload findMultiboot2Tag
  rw [findLoop_first visits enough]
  exact ⟨_,rfl,rfl⟩

theorem filter_find {α : Type} (o : Option α) (p : α → Bool) : o.filter p = o.toList.find? p := by
  cases o with
  | none => rfl
  | some a => cases here : p a <;> simp [here]

theorem findRsdp_first (visits : Visits (moreTags m mbi) (nextTag m) (firstTag mbi) tags) (enough : tags.length ≤ turns) :
    findRsdp m turns mbi = .ok ((rsdpCandidates m tags).find? (rsdpValid m)) := by
  obtain ⟨new,newTag,newList⟩ := tagPayload_first visits enough acpiNewRsdp
  obtain ⟨old,oldTag,oldList⟩ := tagPayload_first visits enough acpiOldRsdp
  unfold findRsdp rsdpCandidates
  rw [newTag,ok_bind,filter_find,newList,List.find?_append]
  cases (firstPayload m tags acpiNewRsdp).find? (rsdpValid m) with
  | some rsdp => rfl
  | none =>
      dsimp only
      rw [oldTag,ok_bind,filter_find,oldList,Option.none_or,List.find?_append]
      cases (firstPayload m tags acpiOldRsdp).find? (rsdpValid m) with
      | some rsdp => rfl
      | none =>
          rw [Option.none_or,findRsdpBiosScan_first]
          rfl

theorem entryLoop_first (m : Memory) (width count entry : Nat) :
    entryLoop m width count entry = ((List.range count).map fun i => read m (entry + i * width) width).find?
      fun header => decide (sdtValid m header = true ∧ kstdMemeq m header madtSignature = true) := by
  induction count generalizing entry with
  | zero => rfl
  | succ count ih =>
      have later : ∀ i,entry + width + i * width = entry + (i + 1) * width := fun i => by rw [Nat.add_mul,Nat.one_mul]; omega
      unfold entryLoop
      rw [map_range_succ,Nat.zero_mul,Nat.add_zero]
      dsimp only
      by_cases here : sdtValid m (read m entry width) = true ∧ kstdMemeq m (read m entry width) madtSignature = true
      · rw [if_pos here,List.find?_cons_of_pos (by rw [decide_eq_true_iff]; exact here)]
      · rw [if_neg here,List.find?_cons_of_neg (by rw [decide_eq_true_iff]; exact here),ih]
        simp only [later]

-- The pointers of a table that is what it should be.
def tablePointers (m : Memory) (signature : List UInt8) (width sdt : Nat) : List Nat :=
  if Sdt m signature sdt then pointers m width sdt else []

-- Where the MADT is looked for: behind the XSDT, then behind the RSDT.
def madtCandidates (m : Memory) (rsdp : Nat) : List Nat :=
  (if 2 ≤ revision m rsdp ∧ xsdtAddress m rsdp ≠ 0 then tablePointers m xsdtSignature 8 (xsdtAddress m rsdp) else []) ++
    (if rsdtAddress m rsdp ≠ 0 then tablePointers m rsdtSignature 4 (rsdtAddress m rsdp) else [])

def isMadt (m : Memory) (header : Nat) : Bool := decide (Sdt m madtSignature header)

theorem findMadtIn_first (m : Memory) (signature : List UInt8) (width sdt : Nat) :
    findMadtIn m signature width sdt = (tablePointers m signature width sdt).find? (isMadt m) := by
  have check : (fun header => decide (sdtValid m header = true ∧ kstdMemeq m header madtSignature = true)) = isMadt m :=
    funext fun header => decide_eq_decide.mpr (sdtValid_exact madtSignature)
  unfold findMadtIn tablePointers
  by_cases good : Sdt m signature sdt
  · obtain ⟨valid,signed⟩ := (sdtValid_exact signature).mpr good
    rw [if_neg (ne_false_of_eq_true valid),if_neg (ne_false_of_eq_true signed),if_pos good,entryLoop_first,check]
    rfl
  · rw [if_neg good]
    split
    · rfl
    · rename_i valid
      split
      · rfl
      · rename_i signed
        exact absurd ((sdtValid_exact signature).mp ⟨Bool.of_not_eq_false valid,Bool.of_not_eq_false signed⟩) good

theorem findMadt_first (m : Memory) (rsdp : Nat) : findMadt m rsdp = (madtCandidates m rsdp).find? (isMadt m) := by
  unfold findMadt madtCandidates findMadtInXsdt findMadtInRsdt
  rw [List.find?_append]
  simp only [findMadtIn_first]
  have guarded (c : Prop) [Decidable c] (list : List Nat) :
      (if c then list.find? (isMadt m) else none) = (if c then list else []).find? (isMadt m) := by
    split <;> rfl
  rw [guarded,guarded]
  cases List.find? (isMadt m) (if 2 ≤ revision m rsdp ∧ xsdtAddress m rsdp ≠ 0 then _ else []) <;> rfl

end Searches

-- What parse_madt comes to.
inductive Discovers (m : Memory) (tags : List Nat) (bspApicId : Nat) : Except Fault ParsedMadt → Prop where
  | noRsdp : (∀ a ∈ rsdpCandidates m tags,¬ Rsdp m a) → Discovers m tags bspApicId (.error (.assertion "ACPI RSDP not found"))
  | noMadt : First (Rsdp m) (rsdpCandidates m tags) rsdp → (∀ a ∈ madtCandidates m rsdp,¬ Sdt m madtSignature a) →
      Discovers m tags bspApicId (.error (.assertion "ACPI MADT not found"))
  | crowded : First (Rsdp m) (rsdpCandidates m tags) rsdp → First (Sdt m madtSignature) (madtCandidates m rsdp) table →
      Entries m (tableEnd m table) (table + madtSize) entries → ¬ Room m (emptyInfo bspApicId) entries →
      Discovers m tags bspApicId (.error (.assertion message))
  | noCpus : First (Rsdp m) (rsdpCandidates m tags) rsdp → First (Sdt m madtSignature) (madtCandidates m rsdp) table →
      Entries m (tableEnd m table) (table + madtSize) entries → Room m (emptyInfo bspApicId) entries →
      entries.filterMap (cpuOf m bspApicId) = [] → Discovers m tags bspApicId (.error (.assertion "MADT listed no CPUs"))
  | noIoapic : First (Rsdp m) (rsdpCandidates m tags) rsdp → First (Sdt m madtSignature) (madtCandidates m rsdp) table →
      Entries m (tableEnd m table) (table + madtSize) entries → Room m (emptyInfo bspApicId) entries →
      entries.filterMap (cpuOf m bspApicId) ≠ [] → entries.filterMap (ioapicOf m) = [] →
      Discovers m tags bspApicId (.error (.assertion "MADT listed no IOAPIC"))
  -- The fields that are read in front of the entries are inside of the table.
  | parsed : First (Rsdp m) (rsdpCandidates m tags) rsdp → First (Sdt m madtSignature) (madtCandidates m rsdp) table →
      Entries m (tableEnd m table) (table + madtSize) entries → Holds m (emptyInfo bspApicId) entries info →
      table + madtSize ≤ tableEnd m table → info.cpus.elements ≠ [] → info.ioapics.elements ≠ [] →
      Discovers m tags bspApicId (.ok (parsedMadt m table info))

section Outcome
variable {m : Memory} {rsdp table turns bspApicId : Nat} {tags entries : List Nat}

theorem listed_empty {α : Type} {list : List α} (positive : 0 < n) : list.take n = [] ↔ list = [] := by
  rw [List.take_eq_nil_iff]
  constructor
  · rintro (zero | nil)
    · omega
    · exact nil
  · exact .inr

theorem table_discovers (found : First (Rsdp m) (rsdpCandidates m tags) rsdp)
    (first : First (Sdt m madtSignature) (madtCandidates m rsdp) table)
    (prefixed : Entries m (tableEnd m table) (table + madtSize) entries) (enough : entries.length < turns) :
    Discovers m tags bspApicId (parseTable m turns table bspApicId) := by
  obtain ⟨valid,signed⟩ := (sdtValid_exact madtSignature).mpr first.here
  unfold parseTable
  rw [if_neg (ne_false_of_eq_true valid),if_neg (ne_false_of_eq_true signed),parse_starts valid]
  obtain ⟨room,info,done,holds⟩ | ⟨crowded,message,failed⟩ :=
    parseLoop_outcome prefixed (Nat.le_add_right _ _) (emptyInfo bspApicId) turns enough
  · rw [done,ok_bind]
    have cpus : info.cpus.elements = [] ↔ entries.filterMap (cpuOf m bspApicId) = [] := by
      rw [holds.cpus]
      exact listed_empty (by decide)
    have ioapics : info.ioapics.elements = [] ↔ entries.filterMap (ioapicOf m) = [] := by
      rw [holds.ioapics]
      exact listed_empty (by decide)
    unfold checkedMadt parsedMadt
    dsimp only
    split
    · rename_i none
      exact .noCpus found first prefixed room (cpus.mp (List.length_eq_zero_iff.mp (Nat.lt_one_iff.mp none)))
    · rename_i some
      have listed : info.cpus.elements ≠ [] := fun none => some (by rw [none]; exact Nat.zero_lt_one)
      split
      · rename_i none
        exact .noIoapic found first prefixed room (fun none => listed (cpus.mpr none))
          (ioapics.mp (List.length_eq_zero_iff.mp (Nat.lt_one_iff.mp none)))
      · rename_i more
        refine .parsed found first prefixed holds ?_ listed fun none => more (by rw [none]; exact Nat.zero_lt_one)
        cases prefixed with
        | stop => exact absurd (cpus.mpr rfl) listed
        | entry formed _ => exact (Nat.le_add_right _ _).trans formed.header
  · rw [failed]
    exact .crowded found first prefixed crowded

end Outcome

-- A boot block at 4096 with an RSDP in it, an XSDT at 8192, and a MADT at 12288 with one
-- processor and one IOAPIC.
def oneCpuTables : Memory := fun x =>
  if 12288 ≤ x then
    ([65,80,73,67,64,0,0,0,1,238,0,0,0,0,0,0,0,0,0,0,0,0,0,0,0,0,0,0,0,0,0,0,0,0,0,0,0,0,224,254,1,0,0,0,
      0,8,1,0,1,0,0,0,1,12,0,0,0,0,192,254,0,0,0,0] : List UInt8).getD (x - 12288) 0
  else if 8192 ≤ x then
    ([88,83,68,84,44,0,0,0,1,96,0,0,0,0,0,0,0,0,0,0,0,0,0,0,0,0,0,0,0,0,0,0,0,0,0,0,0,48,0,0,0,0,0,0] : List UInt8).getD (x - 8192) 0
  else if 4096 ≤ x then
    ([64,0,0,0,0,0,0,0,15,0,0,0,44,0,0,0,82,83,68,32,80,84,82,32,223,0,0,0,0,0,0,2,0,0,0,0,36,0,0,0,
      0,32,0,0,0,0,0,0,188,0,0,0,0,0,0,0,0,0,0,0,8,0,0,0] : List UInt8).getD (x - 4096) 0
  else 0

theorem oneCpuTables_visits : Visits (moreTags oneCpuTables 4096) (nextTag oneCpuTables) (firstTag 4096) [4104,4152] :=
  .visit (by decide) (.visit (by decide) (.stop (by decide)))

section Trust
variable {m n : Memory} {rsdp address size : Nat}

theorem sums_same (same : ∀ i < size,n (address + i) = m (address + i)) : SumsToZero n address size ↔ SumsToZero m address size := by
  unfold SumsToZero
  rw [Finset.sum_congr rfl fun i member => by rw [same i (Finset.mem_range.mp member)]]

-- One byte of a sum cannot be changed alone.
theorem sums_once (sum : SumsToZero m address size) (inside : i < size)
    (other : SumsToZero (Function.update m (address + i) byte) address size) : byte = m (address + i) := by
  unfold SumsToZero at sum other
  have rest : ∑ j ∈ (Finset.range size).erase i,(Function.update m (address + i) byte (address + j)).toNat =
      ∑ j ∈ (Finset.range size).erase i,(m (address + j)).toNat := by
    refine Finset.sum_congr rfl fun j member => ?_
    have apart : j ≠ i := Finset.ne_of_mem_erase member
    rw [Function.update_of_ne (by omega)]
  have mine : i ∈ Finset.range size := Finset.mem_range.mpr inside
  rw [← Finset.add_sum_erase _ _ mine] at sum other
  rw [rest,Function.update_self] at other
  have small := byte.toNat_lt
  have before := (m (address + i)).toNat_lt
  exact UInt8.toNat_inj.mp (by omega)

-- A byte behind the first 24 is neither the signature nor the revision nor the length.
theorem update_fields (m : Memory) (rsdp : Nat) (behind : 24 ≤ i) (byte : UInt8) :
    (Signed (Function.update m (rsdp + i) byte) rsdpSignature rsdp ↔ Signed m rsdpSignature rsdp) ∧
      (SumsToZero (Function.update m (rsdp + i) byte) rsdp rsdpV1Size ↔ SumsToZero m rsdp rsdpV1Size) ∧
      revision (Function.update m (rsdp + i) byte) rsdp = revision m rsdp ∧
      rsdpLength (Function.update m (rsdp + i) byte) rsdp = rsdpLength m rsdp := by
  have early : ∀ j < 24,Function.update m (rsdp + i) byte (rsdp + j) = m (rsdp + j) :=
    fun j low => Function.update_of_ne (by omega) _ _
  have signed : ∀ (j : Nat) letter,rsdpSignature[j]? = some letter →
      Function.update m (rsdp + i) byte (rsdp + j) = m (rsdp + j) := fun j letter here => by
    obtain ⟨low,_⟩ := List.getElem?_eq_some_iff.mp here
    have length : rsdpSignature.length = 8 := rfl
    exact early j (by omega)
  refine ⟨⟨fun other j letter here => ?_,fun other j letter here => ?_⟩,sums_same fun j low => ?_,?_,?_⟩
  · rw [← signed j letter here]
    exact other j letter here
  · rw [signed j letter here]
    exact other j letter here
  · simp only [rsdpV1Size] at low
    exact early j (by omega)
  · refine read_congr fun x low high => Function.update_of_ne (by omega) _ _
  · refine read_congr fun x low high => Function.update_of_ne (by omega) _ _

end Trust

-- The XSDT's address comes first behind the length. A byte from there on is checked exactly if the
-- length reaches that far, and the code asks no more of it than 20.
theorem xsdt_address_checked (m : Memory) (rsdp i : Nat) (good : Rsdp m rsdp) (extended : 2 ≤ revision m rsdp) :
    (∀ byte,Rsdp (Function.update m (rsdp + (24 + i)) byte) rsdp → byte = m (rsdp + (24 + i))) ↔ 24 + i < rsdpLength m rsdp := by
  obtain ⟨long,whole⟩ := good.whole extended
  constructor
  · intro checked
    by_contra outside
    have next := checked (m (rsdp + (24 + i)) + 1)
    obtain ⟨signature,first,same,length⟩ := update_fields m rsdp (Nat.le_add_right 24 i) (m (rsdp + (24 + i)) + 1)
    have changed := next ⟨good.present,signature.mpr good.signature,first.mpr good.first,fun _ => by
      rw [length]
      exact ⟨long,(sums_same fun j low => Function.update_of_ne (by omega) _ _).mpr whole⟩⟩
    exact absurd changed (by simp)
  · intro inside byte other
    obtain ⟨_,_,same,length⟩ := update_fields m rsdp (Nat.le_add_right 24 i) byte
    have sum := (other.whole (by rw [same]; exact extended)).2
    rw [length] at sum
    exact sums_once whole inside sum

theorem xsdt_address_checked_one : 24 + 7 < rsdpLength oneCpuTables 4112 ∧
    ∀ byte,Rsdp (Function.update oneCpuTables (4112 + (24 + 7)) byte) 4112 → byte = 0 := by
  have last : 24 + 7 < rsdpLength oneCpuTables 4112 := by decide
  exact ⟨last,(xsdt_address_checked oneCpuTables 4112 7 (rsdpValid_exact.mp (by decide)) (by decide)).mpr last⟩

end Acpi
