import Gameos.AddressWalks
import Gameos.AllocatorTypes
import Gameos.ByteMemory
import Gameos.MachineWords

-- gameos/multiboot2.hh and gameos/memory.hh: the tags of the boot information.
namespace BootInformation
open AddressWalks AllocatorTypes ByteMemory MachineWords

-- Multiboot2_Tag_Type.
def cmdlineType : Nat := 1
def bootLoaderNameType : Nat := 2
def moduleType : Nat := 3
def memoryMapType : Nat := 6

def multibootMmapUsable : Nat := 1
def maxMemoryRegions : Nat := 128

-- Sizes of the packed structures.
def infoSize : Nat := 8
def tagSize : Nat := 8
def memoryMapTagSize : Nat := 16
def memoryMapEntrySize : Nat := 24

structure MemoryRegion where
  base : Nat
  size : Nat
deriving DecidableEq, Repr

abbrev MemoryRegions := {regions : List MemoryRegion // regions.length ≤ maxMemoryRegions}

inductive Fault where
  | assertion (message : String)
  -- the turns given to a loop did not suffice
  | unfinished
deriving DecidableEq, Repr

-- A tag header or a memory map entry that was read.
structure Extent where
  address : Nat
  width : Nat
deriving DecidableEq, Repr

abbrev Walk (α : Type) := Traced Extent Fault α

section Fields
variable (m : Memory)

def totalSize (mbi : Nat) : Nat := read m mbi 4
def firstTag (mbi : Nat) : Nat := add64 mbi infoSize
def endTag (mbi : Nat) : Nat := add64 mbi (totalSize m mbi)

def typeOf (tag : Nat) : Nat := read m tag 2
def sizeOf (tag : Nat) : Nat := read m (tag + 4) 4

-- (size + 7) & ~u32{7}, in 32 bits.
def roundedSize (tag : Nat) : Nat := (sizeOf m tag + 7) % 2^32 / 8 * 8
def nextTag (tag : Nat) : Nat := add64 tag (roundedSize m tag)
def payload (tag : Nat) : Nat := add64 tag tagSize

def entrySize (tag : Nat) : Nat := read m (tag + 8) 4
def firstEntry (tag : Nat) : Nat := add64 tag memoryMapTagSize
def endEntry (tag : Nat) : Nat := add64 tag (sizeOf m tag)
def nextEntry (tag entry : Nat) : Nat := add64 entry (entrySize m tag)

def entryAddr (entry : Nat) : Nat := read m entry 8
def entryLen (entry : Nat) : Nat := read m (entry + 8) 8
def entryType (entry : Nat) : Nat := read m (entry + 16) 4

def modStart (tag : Nat) : Nat := read m (tag + 8) 4
def modEnd (tag : Nat) : Nat := read m (tag + 12) 4
def modString (tag : Nat) : Nat := read m (tag + 16) 4

end Fields

-- Whether a loop over the tags, or over the entries of one, goes on.
def moreTags (m : Memory) (mbi tag : Nat) : Bool := tag < endTag m mbi
def moreEntries (m : Memory) (tag entry : Nat) : Bool := entry < endEntry m tag

def findLoop (m : Memory) (type mbi : Nat) : Nat → Nat → Walk (Option Nat)
  | 0,tag => if moreTags m mbi tag then .silent (.error .unfinished) else .pure none
  | turns + 1,tag =>
    if moreTags m mbi tag then
      (Traced.touch ⟨tag,tagSize⟩).bind fun _ =>
        if typeOf m tag = type then .pure (some tag) else findLoop m type mbi turns (nextTag m tag)
    else .pure none

def findMultiboot2Tag (m : Memory) (turns type mbi : Nat) : Walk (Option Nat) := findLoop m type mbi turns (firstTag mbi)

def addUsableRegion (regions : List MemoryRegion) (base length : Nat) : Except Fault (List MemoryRegion) :=
  if regions.length < maxMemoryRegions then .ok (regions ++ [⟨base,length⟩])
  else .error (.assertion "push_back on full Bounded_Array")

def parseEntry (m : Memory) (entry : Nat) (regions : List MemoryRegion) : Walk (List MemoryRegion) :=
  (Traced.touch ⟨entry,memoryMapEntrySize⟩).bind fun _ =>
    if entryType m entry = multibootMmapUsable then
      .silent (addUsableRegion regions (entryAddr m entry) (entryLen m entry))
    else .pure regions

def parseTag (m : Memory) (turns tag : Nat) (regions : List MemoryRegion) : Walk (List MemoryRegion) :=
  (Traced.touch ⟨tag,tagSize⟩).bind fun _ =>
    if typeOf m tag = memoryMapType then
      walk (moreEntries m tag) (nextEntry m tag) .unfinished (parseEntry m) turns (firstEntry tag) regions
    else .pure regions

def parseMultiboot2MemoryMap (m : Memory) (turns mbi : Nat) (regions : List MemoryRegion) : Walk (List MemoryRegion) :=
  walk (moreTags m mbi) (nextTag m) .unfinished (parseTag m turns) turns (firstTag mbi) regions

-- The last of the later regions takes the place of the one that goes.
def lastFirst : List MemoryRegion → List MemoryRegion
  | [] => []
  | region :: rest => (region :: rest).getLast (List.cons_ne_nil _ _) :: (region :: rest).dropLast

-- The range [start, fin) leaves the region as it is.
def Skips (start fin : Nat) (region : MemoryRegion) : Prop :=
  fin ≤ region.base ∨ add64 region.base region.size ≤ start

instance (start fin : Nat) (region : MemoryRegion) : Decidable (Skips start fin region) := by
  unfold Skips
  infer_instance

-- A region to be looked at may become two, of which the later is skipped.
def weight (start fin : Nat) (region : MemoryRegion) : Nat := if Skips start fin region then 1 else 2

def weights (start fin : Nat) (regions : List MemoryRegion) : Nat := (regions.map (weight start fin)).sum

theorem weights_lastFirst (start fin : Nat) (rest : List MemoryRegion) : weights start fin (lastFirst rest) = weights start fin rest := by
  cases rest with
  | nil => rfl
  | cons region rest =>
      unfold lastFirst weights
      have split := List.dropLast_append_getLast (List.cons_ne_nil region rest)
      conv => rhs; rw [← split]
      rw [List.map_append,List.sum_append,List.map_cons,List.sum_cons,List.map_singleton,List.sum_singleton,Nat.add_comm]

theorem weight_pos (start fin : Nat) (region : MemoryRegion) : 0 < weight start fin region := by
  unfold weight
  split <;> decide

theorem weights_cons (start fin : Nat) (region : MemoryRegion) (rest : List MemoryRegion) :
    weights start fin (region :: rest) = weight start fin region + weights start fin rest := by
  unfold weights
  rw [List.map_cons,List.sum_cons]

theorem weights_rest (start fin : Nat) (region : MemoryRegion) (rest : List MemoryRegion) :
    weights start fin rest < weights start fin (region :: rest) := by
  rw [weights_cons]
  exact Nat.lt_add_of_pos_left (weight_pos start fin region)

-- The upper part of a region that was split starts where the range ends.
theorem weights_split {region : MemoryRegion} (meets : ¬ Skips start fin region) (rest : List MemoryRegion) (size : Nat) :
    weights start fin (rest ++ [⟨fin,size⟩]) < weights start fin (region :: rest) := by
  have one : weight start fin ⟨fin,size⟩ = 1 := if_pos (.inl (Nat.le_refl fin))
  have two : weight start fin region = 2 := if_neg meets
  rw [weights_cons,two]
  unfold weights
  rw [List.map_append,List.sum_append,List.map_singleton,List.sum_singleton,one]
  omega

-- The loop of reserve_range, on the regions before `i` and the ones from it on.
def reserveLoop (start fin : Nat) (done : List MemoryRegion) : List MemoryRegion → Except Fault (List MemoryRegion)
  | [] => .ok done
  | region :: rest =>
    let regionEnd := add64 region.base region.size
    if Skips start fin region then reserveLoop start fin (done ++ [region]) rest
    else if start ≤ region.base ∧ regionEnd ≤ fin then reserveLoop start fin done (lastFirst rest)
    else if start ≤ region.base then reserveLoop start fin (done ++ [⟨fin,sub64 regionEnd fin⟩]) rest
    else if regionEnd ≤ fin then reserveLoop start fin (done ++ [⟨region.base,sub64 start region.base⟩]) rest
    else if done.length + (rest.length + 1) < maxMemoryRegions then
      reserveLoop start fin (done ++ [⟨region.base,sub64 start region.base⟩]) (rest ++ [⟨fin,sub64 regionEnd fin⟩])
    else .error (.assertion "Memory_Regions overflow, increase MAX_MEMORY_REGIONS")
termination_by todo => weights start fin todo
decreasing_by
  · exact weights_rest start fin region rest
  · rw [weights_lastFirst]
    exact weights_rest start fin region rest
  · exact weights_rest start fin region rest
  · exact weights_rest start fin region rest
  · exact weights_split ‹_› rest _

def reserveRange (regions : List MemoryRegion) (start fin : Nat) : Except Fault (List MemoryRegion) :=
  if fin ≤ start then .ok regions
  else reserveLoop (alignDown start pageSize) (alignUp fin pageSize) [] regions

def kstdStrlen (m : Memory) (turns text : Nat) : Walk Nat :=
  walk (fun address => m address ≠ 0) (fun address => add64 address 1) .unfinished (fun _ length => .pure (length + 1)) turns text 0

-- [text, text + kstd_strlen(text) + 1)
def reserveText (m : Memory) (turns text : Nat) (regions : List MemoryRegion) : Walk (List MemoryRegion) :=
  (kstdStrlen m turns text).bind fun length =>
    .silent (reserveRange regions text (add64 (add64 text length) 1))

def reserveTag (m : Memory) (turns tag : Nat) (regions : List MemoryRegion) : Walk (List MemoryRegion) :=
  (Traced.touch ⟨tag,tagSize⟩).bind fun _ =>
    if typeOf m tag = cmdlineType ∨ typeOf m tag = bootLoaderNameType then reserveText m turns (payload tag) regions
    else if typeOf m tag = moduleType then
      (Traced.silent (reserveRange regions (modStart m tag) (modEnd m tag))).bind fun regions =>
        if modString m tag ≠ 0 then reserveText m turns (modString m tag) regions else .pure regions
    else .pure regions

-- The range of the kernel is given by the linker.
def reserveMultiboot2Data (m : Memory) (turns mbi kernelStart kernelEnd : Nat) (regions : List MemoryRegion) :
    Walk (List MemoryRegion) :=
  (Traced.silent (reserveRange regions 0 0x100000)).bind fun regions =>
    (Traced.silent (reserveRange regions mbi (endTag m mbi))).bind fun regions =>
      (Traced.silent (reserveRange regions kernelStart kernelEnd)).bind fun regions =>
        walk (moreTags m mbi) (nextTag m) .unfinished (reserveTag m turns) turns (firstTag mbi) regions

section Property
variable (m : Memory) (mbi : Nat)

def Inside (extent : Extent) : Prop := mbi ≤ extent.address ∧ extent.address + extent.width ≤ mbi + totalSize m mbi

-- With enough turns the loops return, and every header and entry they read lies inside.
def Stays (run : Nat → Walk α) : Prop :=
  ∃ enough,∀ turns,enough ≤ turns → (∃ value,(run turns).result = .ok value) ∧ ∀ extent ∈ (run turns).reads,Inside m mbi extent

-- The tags from the first one on: as many as there is room for, and one more.
def tags : List Nat := listed (moreTags m mbi) (nextTag m) (totalSize m mbi + 1) (firstTag mbi)

-- A tag of the type that is looked for is the last one.
def soughtNext (type tag : Nat) : Nat := if typeOf m tag = type then endTag m mbi else nextTag m tag

def tagsUntil (type : Nat) : List Nat := listed (moreTags m mbi) (soughtNext m mbi type) (totalSize m mbi + 1) (firstTag mbi)

def entries (tag : Nat) : List Nat := listed (moreEntries m tag) (nextEntry m tag) (totalSize m mbi + 1) (firstEntry tag)

structure GoodTag (tag : Nat) : Prop where
  inside : Inside m mbi ⟨tag,tagSize⟩
  moves : 0 < roundedSize m tag

structure GoodEntry (tag entry : Nat) : Prop where
  inside : Inside m mbi ⟨entry,memoryMapEntrySize⟩
  moves : 0 < entrySize m tag

-- The usable entries of a tag, if it is a memory map.
def usableOf (tag : Nat) : List MemoryRegion :=
  if typeOf m tag = memoryMapType then
    ((entries m mbi tag).filter fun entry => entryType m entry = multibootMmapUsable).map fun entry =>
      ⟨entryAddr m entry,entryLen m entry⟩
  else []

structure Findable (type : Nat) : Prop where
  inside : ∀ tag ∈ tagsUntil m mbi type,Inside m mbi ⟨tag,tagSize⟩
  moves : ∀ tag ∈ tagsUntil m mbi type,typeOf m tag ≠ type → 0 < roundedSize m tag

structure Parsable (regions : List MemoryRegion) : Prop where
  tags : ∀ tag ∈ tags m mbi,GoodTag m mbi tag
  entries : ∀ tag ∈ BootInformation.tags m mbi,typeOf m tag = memoryMapType → ∀ entry ∈ entries m mbi tag,GoodEntry m mbi tag entry
  room : regions.length + ((BootInformation.tags m mbi).flatMap (usableOf m mbi)).length ≤ maxMemoryRegions

-- The texts that a tag carries or points to.
def textsOf (tag : Nat) : List Nat :=
  if typeOf m tag = cmdlineType ∨ typeOf m tag = bootLoaderNameType then [payload tag]
  else if typeOf m tag = moduleType then if modString m tag ≠ 0 then [modString m tag] else []
  else []

def TextLength (text length : Nat) : Prop := m (add64 text length) = 0 ∧ ∀ i < length,m (add64 text i) ≠ 0

def reserve (regions : List MemoryRegion) (range : Nat × Nat) : Except Fault (List MemoryRegion) :=
  reserveRange regions range.1 range.2

def textRange (length : Nat → Nat) (text : Nat) : Nat × Nat := (text,add64 (add64 text (length text)) 1)

def rangesOf (length : Nat → Nat) (tag : Nat) : List (Nat × Nat) :=
  (if typeOf m tag = moduleType then [(modStart m tag,modEnd m tag)] else []) ++ (textsOf m tag).map (textRange length)

-- The three ranges before the tags.
def fixedRanges (kernelStart kernelEnd : Nat) : List (Nat × Nat) :=
  [(0,0x100000),(mbi,endTag m mbi),(kernelStart,kernelEnd)]

def ranges (kernelStart kernelEnd : Nat) (length : Nat → Nat) : List (Nat × Nat) :=
  fixedRanges m mbi kernelStart kernelEnd ++ (tags m mbi).flatMap (rangesOf m length)

-- Every text ends in a zero byte, and no range splits a region while all are in use.
structure Reservable (kernelStart kernelEnd : Nat) (regions : List MemoryRegion) : Prop where
  tags : ∀ tag ∈ tags m mbi,GoodTag m mbi tag
  room : ∃ length,(∀ tag ∈ BootInformation.tags m mbi,∀ text ∈ textsOf m tag,TextLength m text (length text)) ∧
    ∃ result,(ranges m mbi kernelStart kernelEnd length).foldlM reserve regions = .ok result

end Property

section Positions
variable {m : Memory} {mbi width first : Nat} {more : Nat → Bool} {next : Nat → Nat} {list : List Nat}

theorem totalSize_lt (m : Memory) (mbi : Nat) : totalSize m mbi < 2^32 := read_lt m mbi 4

theorem climbs (here : Inside m mbi ⟨p,width⟩) (there : Inside m mbi ⟨add64 p step,width⟩) (positive : 0 < step) (small : step < 2^32) :
    p < add64 p step := by
  have total := totalSize_lt m mbi
  unfold Inside add64 at *
  dsimp only at *
  omega

-- What a position does: it ends the walk, or adds a size that is not zero.
def Advances (more : Nat → Bool) (next : Nat → Nat) (p : Nat) : Prop :=
  more (next p) = false ∨ ∃ step,0 < step ∧ step < 2^32 ∧ next p = add64 p step

theorem advances_climbs (advances : Advances more next p) (here : Inside m mbi ⟨p,width⟩)
    (there : Inside m mbi ⟨next p,width⟩) (again : more (next p) = true) : p < next p := by
  rcases advances with ends | ⟨step,positive,small,same⟩
  · rw [ends] at again
    cases again
  · rw [same] at there ⊢
    exact climbs here there positive small

theorem listed_within (turns pos : Nat) : ∀ p ∈ listed more next turns pos,more p = true := by
  induction turns generalizing pos with
  | zero => exact fun p member => absurd member List.not_mem_nil
  | succ turns ih =>
      unfold listed
      split
      case isTrue some =>
        intro p member
        rcases List.mem_cons.mp member with rfl | later
        · exact some
        · exact ih _ p later
      case isFalse => exact fun p member => absurd member List.not_mem_nil

theorem listed_length (turns pos : Nat) : (listed more next turns pos).length ≤ turns := by
  induction turns generalizing pos with
  | zero => exact Nat.le_refl _
  | succ turns ih =>
      unfold listed
      split
      · exact Nat.succ_le_succ (ih _)
      · exact Nat.zero_le _

theorem good_visits (wide : 0 < width)
    (inside : ∀ p ∈ listed more next (totalSize m mbi + 1) first,Inside m mbi ⟨p,width⟩)
    (advances : ∀ p ∈ listed more next (totalSize m mbi + 1) first,Advances more next p) :
    Visits more next first (listed more next (totalSize m mbi + 1) first) := by
  by_cases some : more first = true
  · have member : first ∈ listed more next (totalSize m mbi + 1) first := by
      unfold listed
      rw [if_pos some]
      exact List.mem_cons_self
    have low := (inside first member).1
    refine visits_listed (fun p here => ?_) (fun p here later => ?_) (?_ : mbi + totalSize m mbi - first < _)
    · have high := (inside p here).2
      dsimp only at high
      omega
    · exact advances_climbs (advances p here) (inside p here) (inside _ later) (listed_within _ _ _ later)
    · dsimp only at low
      omega
  · have none : listed more next (totalSize m mbi + 1) first = [] := by
      unfold listed
      exact if_neg some
    rw [none]
    exact .stop (Bool.eq_false_iff.mpr some)

theorem visits_good (wide : 0 < width) (visits : Visits more next first list) (inside : ∀ p ∈ list,Inside m mbi ⟨p,width⟩)
    (advances : ∀ p ∈ list,Advances more next p) : listed more next (totalSize m mbi + 1) first = list := by
  have within := visits.within
  have few : list.length ≤ mbi + totalSize m mbi - first := by
    refine visits.few (fun p here => ?_) fun p here later => ?_
    · have high := (inside p here).2
      dsimp only at high
      omega
    · exact advances_climbs (advances p here) (inside p here) (inside _ later) (within _ later)
  apply visits.listed
  cases list with
  | nil => exact Nat.zero_le _
  | cons p rest =>
      have head : p = first := by
        cases visits
        rfl
      have low := (inside p List.mem_cons_self).1
      dsimp only at low
      omega

-- A size of zero would keep the walk where it is.
theorem moves_positive (visits : Visits more next first list) (here : p ∈ list) (small : p < 2^64) (same : next p = add64 p step) :
    0 < step := by
  refine Nat.pos_of_ne_zero fun zero => visits.moves p here ?_
  rw [same,zero]
  exact Nat.mod_eq_of_lt small

end Positions

section Tags
variable {m : Memory} {mbi type tag entry : Nat} {list : List Nat}

theorem roundedSize_lt (m : Memory) (tag : Nat) : roundedSize m tag < 2^32 := by
  unfold roundedSize
  omega

theorem entrySize_lt (m : Memory) (tag : Nat) : entrySize m tag < 2^32 := read_lt m (tag + 8) 4

theorem moreTags_small (more : moreTags m mbi tag = true) : tag < 2^64 := by
  have below : tag < endTag m mbi := of_decide_eq_true more
  exact below.trans add64_lt

theorem moreEntries_small (more : moreEntries m tag entry = true) : entry < 2^64 := by
  have below : entry < endEntry m tag := of_decide_eq_true more
  exact below.trans add64_lt

theorem tag_advances (positive : 0 < roundedSize m tag) : Advances more (nextTag m) tag :=
  .inr ⟨_,positive,roundedSize_lt m tag,rfl⟩

theorem entry_advances (positive : 0 < entrySize m tag) : Advances more (nextEntry m tag) entry :=
  .inr ⟨_,positive,entrySize_lt m tag,rfl⟩

theorem endTag_stops (m : Memory) (mbi : Nat) : moreTags m mbi (endTag m mbi) = false :=
  decide_eq_false (Nat.lt_irrefl _)

theorem sought_advances (positive : typeOf m tag ≠ type → 0 < roundedSize m tag) :
    Advances (moreTags m mbi) (soughtNext m mbi type) tag := by
  unfold Advances soughtNext
  by_cases found : typeOf m tag = type
  · rw [if_pos found]
    exact .inl (endTag_stops m mbi)
  · rw [if_neg found]
    exact .inr ⟨_,positive found,roundedSize_lt m tag,rfl⟩

theorem good_tags_visits (good : ∀ tag ∈ tags m mbi,GoodTag m mbi tag) :
    Visits (moreTags m mbi) (nextTag m) (firstTag mbi) (tags m mbi) :=
  good_visits (by decide) (fun tag here => (good tag here).inside) fun tag here => tag_advances (good tag here).moves

theorem visits_good_tags (visits : Visits (moreTags m mbi) (nextTag m) (firstTag mbi) list)
    (inside : ∀ tag ∈ list,Inside m mbi ⟨tag,tagSize⟩) : tags m mbi = list ∧ ∀ tag ∈ list,GoodTag m mbi tag := by
  have good : ∀ tag ∈ list,GoodTag m mbi tag := fun tag here =>
    ⟨inside tag here,moves_positive visits here (moreTags_small (visits.within tag here)) rfl⟩
  exact ⟨visits_good (by decide) visits inside fun tag here => tag_advances (good tag here).moves,good⟩

theorem good_entries_visits (good : ∀ entry ∈ entries m mbi tag,GoodEntry m mbi tag entry) :
    Visits (moreEntries m tag) (nextEntry m tag) (firstEntry tag) (entries m mbi tag) :=
  good_visits (by decide) (fun entry here => (good entry here).inside) fun entry here => entry_advances (good entry here).moves

theorem visits_good_entries (visits : Visits (moreEntries m tag) (nextEntry m tag) (firstEntry tag) list)
    (inside : ∀ entry ∈ list,Inside m mbi ⟨entry,memoryMapEntrySize⟩) :
    entries m mbi tag = list ∧ ∀ entry ∈ list,GoodEntry m mbi tag entry := by
  have good : ∀ entry ∈ list,GoodEntry m mbi tag entry := fun entry here =>
    ⟨inside entry here,moves_positive visits here (moreEntries_small (visits.within entry here)) rfl⟩
  exact ⟨visits_good (by decide) visits inside fun entry here => entry_advances (good entry here).moves,good⟩

end Tags

section Find
variable {m : Memory} {mbi type : Nat}

-- The search is a walk that goes to the end behind the tag it finds.
def findVisit (m : Memory) (type tag : Nat) (found : Option Nat) : Walk (Option Nat) :=
  (Traced.touch ⟨tag,tagSize⟩).bind fun _ => .pure (if typeOf m tag = type then some tag else found)

theorem findLoop_walk (m : Memory) (type mbi turns tag : Nat) :
    findLoop m type mbi turns tag =
      walk (moreTags m mbi) (soughtNext m mbi type) .unfinished (findVisit m type) turns tag none := by
  induction turns generalizing tag with
  | zero => rfl
  | succ turns ih =>
      unfold findLoop walk
      by_cases more : moreTags m mbi tag = true
      · rw [if_pos more,if_pos more]
        unfold findVisit soughtNext
        by_cases found : typeOf m tag = type
        · rw [if_pos found,if_pos found]
          simp only [if_pos found]
          have stops := endTag_stops m mbi
          cases turns <;> (simp only [Traced.bind,Traced.touch,Traced.pure,walk,stops]; rfl)
        · rw [if_neg found,if_neg found]
          simp only [if_neg found]
          rw [ih]
          rfl
      · rw [if_neg more,if_neg more]

theorem find_stays_iff (m : Memory) (type mbi : Nat) :
    Stays m mbi (fun turns => findMultiboot2Tag m turns type mbi) ↔ Findable m mbi type := by
  unfold findMultiboot2Tag
  simp only [findLoop_walk]
  constructor
  · rintro ⟨enough,stays⟩
    obtain ⟨⟨value,done⟩,reads⟩ := stays enough (Nat.le_refl _)
    dsimp only at done reads
    obtain ⟨list,visits,few⟩ := walk_visits done
    rw [walk_sweep visits few] at done reads
    have each := sweep_each done reads
    have inside : ∀ tag ∈ list,Inside m mbi ⟨tag,tagSize⟩ := fun tag here => by
      obtain ⟨before,_,_,read⟩ := each tag here
      exact read _ (List.mem_singleton_self _)
    have moves : ∀ tag ∈ list,typeOf m tag ≠ type → 0 < roundedSize m tag := fun tag here other =>
      moves_positive visits here (moreTags_small (visits.within tag here)) (if_neg other)
    have same : tagsUntil m mbi type = list :=
      visits_good (by decide) visits inside fun tag here => sought_advances (moves tag here)
    exact ⟨by rw [same]; exact inside,by rw [same]; exact moves⟩
  · intro findable
    have visits : Visits (moreTags m mbi) (soughtNext m mbi type) (firstTag mbi) (tagsUntil m mbi type) :=
      good_visits (by decide) findable.inside fun tag here => sought_advances (findable.moves tag here)
    refine ⟨totalSize m mbi + 1,fun turns enough => ?_⟩
    dsimp only
    rw [walk_sweep visits ((listed_length _ _).trans enough)]
    constructor
    · exact sweep_total (fun _ _ _ => ⟨_,rfl⟩) none
    · refine sweep_reads (fun tag here found extent read => ?_) none
      rw [List.mem_singleton.mp read]
      exact findable.inside tag here

end Find

section Parse
variable {m : Memory} {mbi tag turns : Nat} {regions : List MemoryRegion}

def push (regions : List MemoryRegion) (region : MemoryRegion) : Except Fault (List MemoryRegion) :=
  addUsableRegion regions region.base region.size

theorem pushes_iff (few : regions.length ≤ maxMemoryRegions) (list : List MemoryRegion) :
    (∃ result,list.foldlM push regions = .ok result) ↔ regions.length + list.length ≤ maxMemoryRegions := by
  induction list generalizing regions with
  | nil => exact ⟨fun _ => few,fun _ => ⟨regions,rfl⟩⟩
  | cons region rest ih =>
      rw [List.foldlM_cons,List.length_cons]
      by_cases room : regions.length < maxMemoryRegions
      · have pushed : push regions region = .ok (regions ++ [region]) := if_pos room
        have longer : (regions ++ [region]).length = regions.length + 1 := List.length_append
        have later := @ih (regions ++ [region]) (by rw [longer]; exact room)
        rw [longer,Nat.add_assoc,Nat.add_comm 1] at later
        rw [pushed]
        exact later
      · have full : push regions region = .error (.assertion "push_back on full Bounded_Array") := if_neg room
        rw [full]
        refine ⟨fun ⟨_,done⟩ => ?_,fun fits => absurd fits (by omega)⟩
        cases done

theorem parseEntry_result (m : Memory) (entry : Nat) (regions : List MemoryRegion) : (parseEntry m entry regions).result =
    if entryType m entry = multibootMmapUsable then push regions ⟨entryAddr m entry,entryLen m entry⟩ else .ok regions := by
  show (ite _ _ _ : Walk (List MemoryRegion)).result = _
  split <;> rfl

theorem parseEntry_reads (m : Memory) (entry : Nat) (regions : List MemoryRegion) :
    (parseEntry m entry regions).reads = [⟨entry,memoryMapEntrySize⟩] := by
  show _ :: (ite _ _ _ : Walk (List MemoryRegion)).reads = _
  split <;> rfl

-- The entries of one tag push what is usable among them.
theorem entries_pushed (m : Memory) (list : List Nat) (regions : List MemoryRegion) :
    (sweep (parseEntry m) list regions).result =
      ((list.filter fun entry => entryType m entry = multibootMmapUsable).map fun entry =>
        (⟨entryAddr m entry,entryLen m entry⟩ : MemoryRegion)).foldlM push regions := by
  rw [sweep_result]
  induction list generalizing regions with
  | nil => rfl
  | cons entry rest ih =>
      rw [List.foldlM_cons,parseEntry_result]
      by_cases usable : entryType m entry = multibootMmapUsable
      · rw [if_pos usable,List.filter_cons,if_pos (decide_eq_true usable),List.map_cons,List.foldlM_cons]
        cases push regions ⟨entryAddr m entry,entryLen m entry⟩ with
        | error fault => rfl
        | ok pushed => exact ih pushed
      · rw [if_neg usable,List.filter_cons,if_neg (by simp [usable])]
        exact ih regions

theorem parseTag_map (map : typeOf m tag = memoryMapType)
    (visits : Visits (moreEntries m tag) (nextEntry m tag) (firstEntry tag) list) (enough : list.length ≤ turns) (regions : List MemoryRegion) :
    parseTag m turns tag regions = (Traced.touch ⟨tag,tagSize⟩).bind fun _ => sweep (parseEntry m) list regions := by
  unfold parseTag
  simp only [if_pos map]
  rw [walk_sweep visits enough]

theorem parseTag_result (good : typeOf m tag = memoryMapType → ∀ entry ∈ entries m mbi tag,GoodEntry m mbi tag entry)
    (enough : totalSize m mbi + 1 ≤ turns) (regions : List MemoryRegion) :
    (parseTag m turns tag regions).result = (usableOf m mbi tag).foldlM push regions := by
  unfold usableOf
  by_cases map : typeOf m tag = memoryMapType
  · rw [if_pos map,parseTag_map map (good_entries_visits (good map)) ((listed_length _ _).trans enough),← entries_pushed]
    rfl
  · unfold parseTag
    simp only [if_neg map]
    rfl

theorem parseTag_reads (inside : Inside m mbi ⟨tag,tagSize⟩)
    (good : typeOf m tag = memoryMapType → ∀ entry ∈ entries m mbi tag,GoodEntry m mbi tag entry)
    (enough : totalSize m mbi + 1 ≤ turns) (regions : List MemoryRegion) :
    ∀ extent ∈ (parseTag m turns tag regions).reads,Inside m mbi extent := by
  have header : ∀ extent ∈ (Traced.touch (ε:=Fault) (⟨tag,tagSize⟩ : Extent)).reads,Inside m mbi extent := fun extent read => by
    rw [List.mem_singleton.mp read]
    exact inside
  by_cases map : typeOf m tag = memoryMapType
  · rw [parseTag_map map (good_entries_visits (good map)) ((listed_length _ _).trans enough)]
    refine Traced.bind_reads header fun _ => sweep_reads (fun entry here regions extent read => ?_) regions
    rw [parseEntry_reads] at read
    rw [List.mem_singleton.mp read]
    exact (good map entry here).inside
  · unfold parseTag
    simp only [if_neg map]
    exact Traced.bind_reads header fun _ extent read => absurd read List.not_mem_nil

theorem foldlM_flatMap (f : Nat → List β) (step : α → β → Except Fault α) (list : List Nat) (s : α) :
    list.foldlM (fun s p => (f p).foldlM step s) s = (list.flatMap f).foldlM step s := by
  induction list generalizing s with
  | nil => rfl
  | cons p rest ih =>
      rw [List.foldlM_cons,List.flatMap_cons,List.foldlM_append]
      cases (f p).foldlM step s with
      | error fault => rfl
      | ok t => exact ih t

theorem foldlM_congr {f g : α → Nat → Except Fault α} {list : List Nat} (same : ∀ p ∈ list,∀ s,f s p = g s p) (s : α) :
    list.foldlM f s = list.foldlM g s := by
  induction list generalizing s with
  | nil => rfl
  | cons p rest ih =>
      rw [List.foldlM_cons,List.foldlM_cons,same p List.mem_cons_self s]
      cases g s p with
      | error fault => rfl
      | ok t => exact ih (fun q member => same q (List.mem_cons_of_mem _ member)) t

theorem parse_result (good : ∀ tag ∈ tags m mbi,GoodTag m mbi tag)
    (each : ∀ tag ∈ tags m mbi,typeOf m tag = memoryMapType → ∀ entry ∈ entries m mbi tag,GoodEntry m mbi tag entry)
    (enough : totalSize m mbi + 1 ≤ turns) (regions : List MemoryRegion) :
    (parseMultiboot2MemoryMap m turns mbi regions).result = ((tags m mbi).flatMap (usableOf m mbi)).foldlM push regions := by
  unfold parseMultiboot2MemoryMap
  rw [walk_sweep (good_tags_visits good) ((listed_length _ _).trans enough),sweep_result,← foldlM_flatMap]
  exact foldlM_congr (fun tag here regions => parseTag_result (each tag here) enough regions) regions

theorem parseTag_header (m : Memory) (turns tag : Nat) (regions : List MemoryRegion) :
    (⟨tag,tagSize⟩ : Extent) ∈ (parseTag m turns tag regions).reads := List.mem_cons_self

-- A memory map that was walked to its end.
theorem parsed_entries (map : typeOf m tag = memoryMapType) (done : (parseTag m turns tag regions).result = .ok after)
    (reads : ∀ extent ∈ (parseTag m turns tag regions).reads,Inside m mbi extent) :
    ∀ entry ∈ entries m mbi tag,GoodEntry m mbi tag entry := by
  unfold parseTag at done reads
  simp only [if_pos map] at done reads
  obtain ⟨_,_,walked⟩ := Traced.bind_ok done
  rw [Traced.bind_of_ok rfl] at reads
  obtain ⟨list,visits,few⟩ := walk_visits walked
  rw [walk_sweep visits few] at walked reads
  have each := sweep_each walked fun extent read => reads extent (List.mem_append_right _ read)
  have inside : ∀ entry ∈ list,Inside m mbi ⟨entry,memoryMapEntrySize⟩ := fun entry here => by
    obtain ⟨before,_,_,read⟩ := each entry here
    rw [parseEntry_reads] at read
    exact read _ (List.mem_singleton_self _)
  obtain ⟨same,good⟩ := visits_good_entries visits inside
  rw [same]
  exact good

theorem parse_stays_iff (few : regions.length ≤ maxMemoryRegions) :
    Stays m mbi (fun turns => parseMultiboot2MemoryMap m turns mbi regions) ↔ Parsable m mbi regions := by
  constructor
  · rintro ⟨enough,stays⟩
    obtain ⟨⟨value,done⟩,reads⟩ := stays (max enough (totalSize m mbi + 1)) (Nat.le_max_left _ _)
    dsimp only at done reads
    have walked := done
    unfold parseMultiboot2MemoryMap at walked reads
    obtain ⟨list,visits,short⟩ := walk_visits walked
    rw [walk_sweep visits short] at walked reads
    have each := sweep_each walked reads
    have inside : ∀ tag ∈ list,Inside m mbi ⟨tag,tagSize⟩ := fun tag here => by
      obtain ⟨before,_,_,read⟩ := each tag here
      exact read _ (parseTag_header _ _ _ _)
    obtain ⟨same,good⟩ := visits_good_tags visits inside
    have goodEntries : ∀ tag ∈ tags m mbi,typeOf m tag = memoryMapType → ∀ entry ∈ entries m mbi tag,GoodEntry m mbi tag entry := by
      rw [same]
      intro tag here map
      obtain ⟨before,_,returned,read⟩ := each tag here
      exact parsed_entries map returned read
    have goodTags : ∀ tag ∈ tags m mbi,GoodTag m mbi tag := by
      rw [same]
      exact good
    rw [parse_result goodTags goodEntries (Nat.le_max_right _ _)] at done
    exact ⟨goodTags,goodEntries,(pushes_iff few _).mp ⟨value,done⟩⟩
  · intro parsable
    refine ⟨totalSize m mbi + 1,fun turns enough => ⟨?_,?_⟩⟩
    · dsimp only
      rw [parse_result parsable.tags parsable.entries enough]
      exact (pushes_iff few _).mpr parsable.room
    · dsimp only
      unfold parseMultiboot2MemoryMap
      rw [walk_sweep (good_tags_visits parsable.tags) ((listed_length _ _).trans enough)]
      exact sweep_reads (fun tag here => parseTag_reads (parsable.tags tag here).inside (parsable.entries tag here) enough) regions

end Parse

section Texts
variable {m : Memory} {text length turns : Nat}

theorem add64_add64_one (text i : Nat) : add64 (add64 text 1) i = add64 text (i + 1) := by
  unfold add64
  omega

-- The loop of kstd_strlen visits the bytes before the first zero.
theorem text_visits (ends : TextLength m text length) (small : text < 2^64) :
    ∃ list,Visits (fun address => m address ≠ 0) (fun address => add64 address 1) text list ∧ list.length = length := by
  obtain ⟨zero,before⟩ := ends
  induction length generalizing text with
  | zero =>
      have here : add64 text 0 = text := Nat.mod_eq_of_lt small
      rw [here] at zero
      exact ⟨[],.stop (by simp [zero]),rfl⟩
  | succ length ih =>
      have here : add64 text 0 = text := Nat.mod_eq_of_lt small
      have first := before 0 (Nat.succ_pos _)
      rw [here] at first
      rw [← add64_add64_one] at zero
      obtain ⟨list,visits,same⟩ := ih add64_lt zero fun i less => by
        rw [add64_add64_one]
        exact before (i + 1) (Nat.succ_lt_succ less)
      exact ⟨text :: list,.visit (decide_eq_true first) visits,by rw [List.length_cons,same]⟩

theorem visits_text (visits : Visits (fun address => m address ≠ 0) (fun address => add64 address 1) text list) (small : text < 2^64) :
    TextLength m text list.length := by
  induction visits with
  | @stop text none =>
      have here : add64 text 0 = text := Nat.mod_eq_of_lt small
      refine ⟨?_,fun i less => absurd less (Nat.not_lt_zero _)⟩
      show m (add64 text 0) = 0
      rw [here]
      exact Decidable.of_not_not (of_decide_eq_false none)
  | @visit text rest some later ih =>
      obtain ⟨zero,before⟩ := ih add64_lt
      rw [add64_add64_one] at zero
      refine ⟨zero,fun i less => ?_⟩
      cases i with
      | zero =>
          have here : add64 text 0 = text := Nat.mod_eq_of_lt small
          rw [here]
          exact of_decide_eq_true some
      | succ i =>
          have other := before i (Nat.lt_of_succ_lt_succ less)
          rwa [add64_add64_one] at other

theorem counting (list : List Nat) (n : Nat) :
    sweep (fun _ length => (Traced.pure (length + 1) : Walk Nat)) list n = ⟨[],.ok (n + list.length)⟩ := by
  induction list generalizing n with
  | nil => rfl
  | cons first rest ih =>
      unfold sweep
      rw [Traced.bind_of_ok rfl,ih,List.length_cons,Nat.add_assoc,Nat.add_comm 1]
      rfl

theorem strlen_eq (ends : TextLength m text length) (small : text < 2^64) (enough : length ≤ turns) :
    kstdStrlen m turns text = ⟨[],.ok length⟩ := by
  obtain ⟨list,visits,same⟩ := text_visits ends small
  unfold kstdStrlen
  rw [walk_sweep visits (by omega),counting,same,Nat.zero_add]

theorem strlen_text (done : (kstdStrlen m turns text).result = .ok n) (small : text < 2^64) :
    ∃ length ≤ turns,TextLength m text length := by
  obtain ⟨list,visits,few⟩ := walk_visits done
  exact ⟨list.length,few,visits_text visits small⟩

end Texts

section Reserve
variable {m : Memory} {mbi tag turns kernelStart kernelEnd : Nat} {regions : List MemoryRegion} {length : Nat → Nat}

theorem reserveText_eq (ends : TextLength m text (length text)) (small : text < 2^64) (enough : length text ≤ turns)
    (regions : List MemoryRegion) : reserveText m turns text regions = ⟨[],reserve regions (textRange length text)⟩ := by
  unfold reserveText
  rw [strlen_eq ends small enough]
  rfl

theorem reserveText_ends (done : (reserveText m turns text regions).result = .ok after) (small : text < 2^64) :
    ∃ length ≤ turns,TextLength m text length := by
  obtain ⟨n,counted,_⟩ := Traced.bind_ok done
  exact strlen_text counted small

theorem payload_small (tag : Nat) : payload tag < 2^64 := add64_lt

theorem modString_small (m : Memory) (tag : Nat) : modString m tag < 2^64 :=
  (read_lt m (tag + 16) 4).trans (by decide)

-- What a tag does with the regions is to reserve its ranges.
theorem reserveTag_eq (ends : ∀ text ∈ textsOf m tag,TextLength m text (length text) ∧ length text ≤ turns) (regions : List MemoryRegion) :
    reserveTag m turns tag regions = ⟨[⟨tag,tagSize⟩],(rangesOf m length tag).foldlM reserve regions⟩ := by
  unfold reserveTag rangesOf
  unfold textsOf at ends ⊢
  by_cases plain : typeOf m tag = cmdlineType ∨ typeOf m tag = bootLoaderNameType
  · have other : ¬ typeOf m tag = moduleType := by
      unfold cmdlineType bootLoaderNameType at plain
      unfold moduleType
      omega
    simp only [if_pos plain,if_neg other] at ends ⊢
    obtain ⟨here,enough⟩ := ends (payload tag) (List.mem_singleton_self _)
    rw [reserveText_eq here (payload_small tag) enough]
    show (⟨_,reserve regions (textRange length (payload tag))⟩ : Walk _) = ⟨_,[textRange length (payload tag)].foldlM reserve regions⟩
    rw [List.foldlM_cons]
    cases reserve regions (textRange length (payload tag)) <;> rfl
  · simp only [if_neg plain] at ends ⊢
    by_cases loaded : typeOf m tag = moduleType
    · simp only [if_pos loaded] at ends ⊢
      rw [List.singleton_append,List.foldlM_cons]
      show Traced.bind _ _ = _
      cases first : reserveRange regions (modStart m tag) (modEnd m tag) with
      | error fault =>
          have same : reserve regions (modStart m tag,modEnd m tag) = .error fault := first
          rw [same]
          rfl
      | ok middle =>
          have same : reserve regions (modStart m tag,modEnd m tag) = .ok middle := first
          rw [same]
          by_cases named : modString m tag ≠ 0
          · simp only [if_pos named] at ends ⊢
            obtain ⟨here,enough⟩ := ends (modString m tag) (List.mem_singleton_self _)
            simp only [reserveText_eq here (modString_small m tag) enough]
            show (⟨_,reserve middle (textRange length (modString m tag))⟩ : Walk _) =
              ⟨_,[textRange length (modString m tag)].foldlM reserve middle⟩
            rw [List.foldlM_cons]
            cases reserve middle (textRange length (modString m tag)) <;> rfl
          · simp only [if_neg named]
            rfl
    · simp only [if_neg loaded]
      rfl

theorem reserveTag_header (m : Memory) (turns tag : Nat) (regions : List MemoryRegion) :
    (⟨tag,tagSize⟩ : Extent) ∈ (reserveTag m turns tag regions).reads := List.mem_cons_self

theorem reserveTag_ends (done : (reserveTag m turns tag regions).result = .ok after) :
    ∀ text ∈ textsOf m tag,∃ length ≤ turns,TextLength m text length := by
  unfold reserveTag at done
  unfold textsOf
  by_cases plain : typeOf m tag = cmdlineType ∨ typeOf m tag = bootLoaderNameType
  · simp only [if_pos plain] at done ⊢
    obtain ⟨_,_,named⟩ := Traced.bind_ok done
    intro text here
    rw [List.mem_singleton.mp here]
    exact reserveText_ends named (payload_small tag)
  · simp only [if_neg plain] at done ⊢
    by_cases loaded : typeOf m tag = moduleType
    · simp only [if_pos loaded] at done ⊢
      obtain ⟨_,_,later⟩ := Traced.bind_ok done
      obtain ⟨middle,_,named⟩ := Traced.bind_ok later
      split
      case isTrue some =>
        rw [if_pos some] at named
        intro text here
        rw [List.mem_singleton.mp here]
        exact reserveText_ends named (modString_small m tag)
      case isFalse => exact fun text here => absurd here List.not_mem_nil
    · simp only [if_neg loaded]
      exact fun text here => absurd here List.not_mem_nil

-- The longest of some texts.
theorem lengths_bounded (texts : List Nat) (length : Nat → Nat) : ∃ bound,∀ text ∈ texts,length text ≤ bound := by
  induction texts with
  | nil => exact ⟨0,fun text member => absurd member List.not_mem_nil⟩
  | cons first rest ih =>
      obtain ⟨bound,bounded⟩ := ih
      refine ⟨max (length first) bound,fun text member => ?_⟩
      rcases List.mem_cons.mp member with rfl | later
      · exact Nat.le_max_left _ _
      · exact (bounded text later).trans (Nat.le_max_right _ _)

theorem reserve_eq (m : Memory) (turns mbi kernelStart kernelEnd : Nat) (regions : List MemoryRegion) :
    reserveMultiboot2Data m turns mbi kernelStart kernelEnd regions =
      (Traced.silent ((fixedRanges m mbi kernelStart kernelEnd).foldlM reserve regions)).bind fun regions =>
        walk (moreTags m mbi) (nextTag m) .unfinished (reserveTag m turns) turns (firstTag mbi) regions := by
  unfold reserveMultiboot2Data fixedRanges
  simp only [List.foldlM_cons,List.foldlM_nil,reserve]
  cases reserveRange regions 0 0x100000 with
  | error fault => rfl
  | ok one =>
      rw [Traced.bind_of_ok rfl]
      show Traced.bind _ _ = Traced.bind (Traced.silent (reserveRange one mbi (endTag m mbi) >>= _)) _
      cases reserveRange one mbi (endTag m mbi) with
      | error fault => rfl
      | ok two =>
          rw [Traced.bind_of_ok rfl]
          show Traced.bind _ _ = Traced.bind (Traced.silent (reserveRange two kernelStart kernelEnd >>= _)) _
          cases reserveRange two kernelStart kernelEnd with
          | error fault => rfl
          | ok three => rfl

theorem reserve_result (good : ∀ tag ∈ tags m mbi,GoodTag m mbi tag)
    (ends : ∀ tag ∈ tags m mbi,∀ text ∈ textsOf m tag,TextLength m text (length text) ∧ length text ≤ turns)
    (enough : totalSize m mbi + 1 ≤ turns) (regions : List MemoryRegion) :
    (reserveMultiboot2Data m turns mbi kernelStart kernelEnd regions).result =
      (ranges m mbi kernelStart kernelEnd length).foldlM reserve regions := by
  unfold ranges
  rw [reserve_eq,Traced.bind_result,List.foldlM_append]
  show Except.bind ((fixedRanges m mbi kernelStart kernelEnd).foldlM reserve regions) _ = _
  congr 1
  funext middle
  rw [walk_sweep (good_tags_visits good) ((listed_length _ _).trans enough),sweep_result,← foldlM_flatMap]
  refine foldlM_congr (fun tag here regions => ?_) middle
  rw [reserveTag_eq (ends tag here)]

theorem reserve_stays_iff (m : Memory) (mbi kernelStart kernelEnd : Nat) (regions : List MemoryRegion) :
    Stays m mbi (fun turns => reserveMultiboot2Data m turns mbi kernelStart kernelEnd regions) ↔
      Reservable m mbi kernelStart kernelEnd regions := by
  constructor
  · rintro ⟨enough,stays⟩
    obtain ⟨⟨value,done⟩,reads⟩ := stays enough (Nat.le_refl _)
    dsimp only at done reads
    rw [reserve_eq] at done reads
    obtain ⟨middle,fixed,walked⟩ := Traced.bind_ok done
    rw [Traced.bind_of_ok fixed] at reads
    obtain ⟨list,visits,short⟩ := walk_visits walked
    rw [walk_sweep visits short] at walked reads
    have each := sweep_each walked fun extent read => reads extent (List.mem_append_right _ read)
    have inside : ∀ tag ∈ list,Inside m mbi ⟨tag,tagSize⟩ := fun tag here => by
      obtain ⟨before,_,_,read⟩ := each tag here
      exact read _ (reserveTag_header _ _ _ _)
    obtain ⟨same,good⟩ := visits_good_tags visits inside
    have texts : ∀ text,∃ length,∀ tag ∈ list,text ∈ textsOf m tag → TextLength m text length := by
      intro text
      by_cases used : ∃ tag ∈ list,text ∈ textsOf m tag
      · obtain ⟨tag,here,listed⟩ := used
        obtain ⟨before,_,returned,_⟩ := each tag here
        obtain ⟨length,_,ends⟩ := reserveTag_ends returned text listed
        exact ⟨length,fun _ _ _ => ends⟩
      · exact ⟨0,fun tag here listed => absurd ⟨tag,here,listed⟩ used⟩
    choose length ends using texts
    obtain ⟨bound,bounded⟩ := lengths_bounded (list.flatMap (textsOf m)) length
    obtain ⟨⟨value,done⟩,_⟩ := stays (max enough (max bound (totalSize m mbi + 1))) (Nat.le_max_left _ _)
    dsimp only at done
    rw [← same] at good ends bounded
    refine ⟨good,length,fun tag here text listed => ends text tag here listed,value,?_⟩
    rw [← done]
    refine (reserve_result good (fun tag here text listed => ⟨ends text tag here listed,?_⟩) (by omega) regions).symm
    have less := bounded text (List.mem_flatMap.mpr ⟨tag,here,listed⟩)
    omega
  · rintro ⟨good,length,ends,value,done⟩
    obtain ⟨bound,bounded⟩ := lengths_bounded ((tags m mbi).flatMap (textsOf m)) length
    refine ⟨max bound (totalSize m mbi + 1),fun turns enough => ?_⟩
    have fit : ∀ tag ∈ tags m mbi,∀ text ∈ textsOf m tag,TextLength m text (length text) ∧ length text ≤ turns :=
      fun tag here text listed => by
        have less := bounded text (List.mem_flatMap.mpr ⟨tag,here,listed⟩)
        exact ⟨ends tag here text listed,by omega⟩
    refine ⟨⟨value,(reserve_result good fit (by omega) regions).trans done⟩,?_⟩
    dsimp only
    rw [reserve_eq]
    refine Traced.bind_reads (fun extent read => absurd read List.not_mem_nil) fun middle => ?_
    rw [walk_sweep (good_tags_visits good) ((listed_length _ _).trans (by omega))]
    refine sweep_reads (fun tag here regions extent read => ?_) middle
    rw [reserveTag_eq (fit tag here)] at read
    rw [List.mem_singleton.mp read]
    exact (good tag here).inside

end Reserve

-- A block of 24 bytes at 4096 whose first tag, a boot device, has the size 0.
def stuckBlock : Memory := fun x =>
  if 4096 ≤ x then ([24,0,0,0,0,0,0,0,5] : List UInt8).getD (x - 4096) 0 else 0

end BootInformation
