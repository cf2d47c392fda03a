import Gameos.FilesystemPaths
import Mathlib.Data.List.Forall2
import Mathlib.Data.List.Nodup

-- The resources of @embed directives: their names, the pool, the header.
namespace Preprocessor
open FilesystemPaths

-- std::isalnum of the "C" locale.
def isAlnum (c : Char) : Bool := ('0' ≤ c && c ≤ '9') || ('A' ≤ c && c ≤ 'Z') || ('a' ≤ c && c ≤ 'z')

def identifierCharacter (c : Char) : Char := if isAlnum c then c else '_'

def embedIdentifier (path : Text) : Text := "__embedded__".toList ++ (filename path).map identifierCharacter

structure Resource where
  path : Text
  name : Text
  data : List UInt8
  size : UInt32 × UInt32

-- get_resource_data, which stops the tool where it cannot open the file.
abbrev Loader := Text → Option (List UInt8 × UInt32 × UInt32)

-- The resource a call answers with, and the pool after it.
def findOrCreate (load : Loader) (resources : List Resource) (assetPath name : Text) : Option (Resource × List Resource) :=
  match resources.find? fun r => same r.path assetPath with
  | some r => some (r,resources)
  | none => do
    let (data,size) ← load assetPath
    let r : Resource := ⟨assetPath,name,data,size⟩
    return (r,resources ++ [r])

-- The calls of the @embed directives in some order, each with the identifier it
-- puts in the output.
def embedAll (load : Loader) (assets : Text) : List Text → List Resource → Option (List (Text × Text) × List Resource)
  | [],resources => some ([],resources)
  | path :: rest,resources => do
    let (resource,resources) ← findOrCreate load resources (join assets path) (embedIdentifier path)
    let (received,resources) ← embedAll load assets rest resources
    return ((path,resource.name) :: received,resources)

-- One definition of resources.hh.
structure Definition where
  name : Text
  data : List UInt8
  width : UInt32
  height : UInt32

def writeResourcesHeader (resources : List Resource) : List Definition :=
  resources.map fun r => ⟨r.name,r.data,r.size.1,r.size.2⟩

-- A run of the tool over the directives of all its input files.
structure Embedding where
  load : Loader
  assets : Text
  directives : List Text
  received : List (Text × Text)
  resources : List Resource
  completed : embedAll load assets directives [] = some (received,resources)

-- The file each path leads to; paths that compare equal lead to one file.
structure Files (File : Type) where
  file : Text → File
  respects : ∀ p q, same p q = true → file p = file q

-- Identifiers stand for asset files, and the header defines each once.
structure UniqueNames {File : Type} (files : Files File) (run : Embedding) : Prop where
  apart : ∀ one ∈ run.received, ∀ two ∈ run.received,
    files.file (join run.assets one.1) ≠ files.file (join run.assets two.1) → one.2 ≠ two.2
  together : ∀ one ∈ run.received, ∀ two ∈ run.received,
    files.file (join run.assets one.1) = files.file (join run.assets two.1) → one.2 = two.2
  defined : ∀ one ∈ run.received, one.2 ∈ (writeResourcesHeader run.resources).map (·.name)
  once : ((writeResourcesHeader run.resources).map (·.name)).Nodup

-- File names alike but for characters that are no letters or digits.
def Alike (p q : Text) : Prop :=
  List.Forall₂ (fun c d => c = d ∨ (isAlnum c = false ∧ isAlnum d = false)) (filename p) (filename q)

theorem identifierCharacter_eq (c d : Char) :
    identifierCharacter c = identifierCharacter d ↔ c = d ∨ (isAlnum c = false ∧ isAlnum d = false) := by
  have underscore : isAlnum '_' = false := by decide
  unfold identifierCharacter
  cases first : isAlnum c <;> cases second : isAlnum d
  · simp
  · have apart : '_' ≠ d := fun same => by rw [← same,underscore] at second; cases second
    have different : c ≠ d := fun same => by rw [same,second] at first; cases first
    simp [apart,different]
  · have apart : c ≠ '_' := fun same => by rw [same,underscore] at first; cases first
    have different : c ≠ d := fun same => by rw [same,second] at first; cases first
    simp [apart,different]
  · simp

theorem embedIdentifier_eq (p q : Text) : embedIdentifier p = embedIdentifier q ↔ Alike p q := by
  unfold embedIdentifier Alike
  rw [List.append_cancel_left_eq]
  generalize filename p = cs
  generalize filename q = ds
  induction cs generalizing ds with
  | nil =>
      cases ds with
      | nil => simp
      | cons d ds => simp [List.forall₂_nil_left_iff]
  | cons c cs ih =>
      cases ds with
      | nil => simp [List.forall₂_nil_right_iff]
      | cons d ds => rw [List.map_cons,List.map_cons,List.cons.injEq,identifierCharacter_eq,ih,List.forall₂_cons]

-- What the pool keeps: no two entries of one path, each named after its file.
structure Pooled (resources : List Resource) : Prop where
  distinct : resources.Pairwise fun r r' => same r.path r'.path = false
  named : ∀ r ∈ resources, r.name = embedIdentifier r.path

theorem embedIdentifier_same (equal : filename p = filename q) : embedIdentifier p = embedIdentifier q := by
  unfold embedIdentifier
  rw [equal]

-- A call answers with an entry of its path, and only adds to the pool.
theorem findOrCreate_pooled (pooled : Pooled resources) (assets path : Text)
    (called : findOrCreate load resources (join assets path) (embedIdentifier path) = some (r,after)) :
    Pooled after ∧ r ∈ after ∧ same r.path (join assets path) = true ∧ resources <+: after ∧
      ∀ other ∈ after, other ∈ resources ∨ other = r := by
  unfold findOrCreate at called
  cases found : resources.find? (fun r => same r.path (join assets path)) with
  | some old =>
      rw [found] at called
      cases called
      exact ⟨pooled,List.mem_of_find?_eq_some found,by simpa using List.find?_some found,List.prefix_refl _,fun _ => .inl⟩
  | none =>
      rw [found] at called
      cases loaded : load (join assets path) with
      | none => simp [loaded] at called
      | some bytes =>
          simp only [loaded,Option.pure_def,Option.bind_eq_bind,Option.bind_some,Option.some.injEq,Prod.mk.injEq] at called
          obtain ⟨rfl,rfl⟩ := called
          have absent := List.find?_eq_none.mp found
          refine ⟨⟨?_,?_⟩,by simp,same_refl _,List.prefix_append _ _,by simp⟩
          · refine List.pairwise_append.mpr ⟨pooled.distinct,List.pairwise_singleton _ _,?_⟩
            intro old member new last
            obtain rfl := List.mem_singleton.mp last
            simpa using absent old member
          · intro other member
            rcases List.mem_append.mp member with old | new
            · exact pooled.named other old
            · obtain rfl := List.mem_singleton.mp new
              exact embedIdentifier_same (filename_join assets path).symm

-- What the calls have left: every directive has an entry of its path, every
-- entry a directive, and every identifier is that of the directive's own path.
structure Embedded (assets : Text) (received : List (Text × Text)) (resources : List Resource) : Prop where
  pooled : Pooled resources
  identifier : ∀ one ∈ received, one.2 = embedIdentifier one.1
  entry : ∀ one ∈ received, ∃ r ∈ resources, same r.path (join assets one.1) = true
  directive : ∀ r ∈ resources, ∃ one ∈ received, same r.path (join assets one.1) = true

theorem embedAll_embedded (assets : Text) (earlier : List (Text × Text)) (embedded : Embedded assets earlier resources)
    (called : embedAll load assets directives resources = some (received,after)) :
    Embedded assets (earlier ++ received) after ∧ received.map (·.1) = directives := by
  induction directives generalizing resources earlier received with
  | nil =>
      cases called
      exact ⟨by rwa [List.append_nil],rfl⟩
  | cons path rest ih =>
      unfold embedAll at called
      cases first : findOrCreate load resources (join assets path) (embedIdentifier path) with
      | none =>
          rw [first] at called
          cases called
      | some answer =>
          obtain ⟨r,middle⟩ := answer
          rw [first] at called
          cases others : embedAll load assets rest middle with
          | none => simp [others] at called
          | some outcome =>
              obtain ⟨later,final⟩ := outcome
              simp only [Option.pure_def,Option.bind_eq_bind,Option.bind_some,others,Option.some.injEq,Prod.mk.injEq] at called
              obtain ⟨rfl,rfl⟩ := called
              obtain ⟨pooled,member,path_same,grown,sources⟩ := findOrCreate_pooled embedded.pooled assets path first
              have name : r.name = embedIdentifier path := by
                rw [pooled.named r member]
                exact embedIdentifier_same ((filename_same path_same).trans (filename_join assets path))
              have next : Embedded assets (earlier ++ [(path,r.name)]) middle := by
                refine ⟨pooled,?_,?_,?_⟩
                · intro one received
                  rcases List.mem_append.mp received with old | new
                  · exact embedded.identifier one old
                  · obtain rfl := List.mem_singleton.mp new
                    exact name
                · intro one received
                  rcases List.mem_append.mp received with old | new
                  · obtain ⟨entry,present,equal⟩ := embedded.entry one old
                    exact ⟨entry,grown.subset present,equal⟩
                  · obtain rfl := List.mem_singleton.mp new
                    exact ⟨r,member,path_same⟩
                · intro entry present
                  rcases sources entry present with old | rfl
                  · obtain ⟨one,received,equal⟩ := embedded.directive entry old
                    exact ⟨one,List.mem_append_left _ received,equal⟩
                  · exact ⟨(path,entry.name),by simp,path_same⟩
              obtain ⟨all,listed⟩ := ih _ next others
              rw [List.append_assoc] at all
              exact ⟨all,by rw [List.map_cons,listed]⟩

theorem run_embedded (run : Embedding) :
    Embedded run.assets run.received run.resources ∧ run.received.map (·.1) = run.directives := by
  have start : Embedded run.assets [] [] := by
    refine ⟨⟨.nil,?_⟩,?_,?_,?_⟩ <;> simp
  exact embedAll_embedded run.assets [] start run.completed

-- No two directives have file names that the identifier cannot tell apart, unless
-- they spell one path, and any two that lead to one file have such names.
def Distinguished {File : Type} (files : Files File) (run : Embedding) : Prop :=
  ∀ p ∈ run.directives, ∀ q ∈ run.directives,
    (Alike p q → same (join run.assets p) (join run.assets q) = true) ∧
    (files.file (join run.assets p) = files.file (join run.assets q) → Alike p q)

theorem names_unique_exact {File : Type} (files : Files File) (run : Embedding) :
    UniqueNames files run ↔ Distinguished files run := by
  obtain ⟨embedded,listed⟩ := run_embedded run
  have received : ∀ p ∈ run.directives, (p,embedIdentifier p) ∈ run.received := by
    intro p member
    rw [← listed] at member
    obtain ⟨one,present,rfl⟩ := List.mem_map.mp member
    rw [← embedded.identifier one present]
    exact present
  have spelled : ∀ one ∈ run.received, one.1 ∈ run.directives :=
    fun one member => listed ▸ List.mem_map_of_mem member
  have names : (writeResourcesHeader run.resources).map (·.name) = run.resources.map (·.name) := by
    simp [writeResourcesHeader]
  have entry_name : ∀ r ∈ run.resources, ∀ p, same r.path (join run.assets p) = true → r.name = embedIdentifier p := by
    intro r member p equal
    rw [embedded.pooled.named r member]
    exact embedIdentifier_same ((filename_same equal).trans (filename_join run.assets p))
  constructor
  · intro unique p left q right
    constructor
    · intro alike
      obtain ⟨r,r_member,r_same⟩ := embedded.entry _ (received p left)
      obtain ⟨t,t_member,t_same⟩ := embedded.entry _ (received q right)
      have once := unique.once
      rw [names] at once
      have equal : r = t := by
        refine List.inj_on_of_nodup_map once r_member t_member ?_
        rw [entry_name r r_member p r_same,entry_name t t_member q t_same]
        exact (embedIdentifier_eq p q).mpr alike
      exact same_trans (same_symm r_same) (equal ▸ t_same)
    · intro one_file
      exact (embedIdentifier_eq p q).mp (unique.together _ (received p left) _ (received q right) one_file)
  · intro distinguished
    refine ⟨?_,?_,?_,?_⟩
    · intro one left two right files_differ names_same
      rw [embedded.identifier one left,embedded.identifier two right,embedIdentifier_eq] at names_same
      exact files_differ (files.respects _ _ ((distinguished _ (spelled one left) _ (spelled two right)).1 names_same))
    · intro one left two right one_file
      rw [embedded.identifier one left,embedded.identifier two right,embedIdentifier_eq]
      exact (distinguished _ (spelled one left) _ (spelled two right)).2 one_file
    · intro one member
      obtain ⟨r,present,equal⟩ := embedded.entry one member
      rw [names,embedded.identifier one member,← entry_name r present one.1 equal]
      exact List.mem_map_of_mem present
    · rw [names]
      refine List.pairwise_map.mpr (embedded.pooled.distinct.imp_of_mem fun {r t} r_member t_member apart names_same => ?_)
      obtain ⟨one,one_member,one_same⟩ := embedded.directive r r_member
      obtain ⟨two,two_member,two_same⟩ := embedded.directive t t_member
      rw [entry_name r r_member _ one_same,entry_name t t_member _ two_same,embedIdentifier_eq] at names_same
      have spelled_same := (distinguished _ (spelled one one_member) _ (spelled two two_member)).1 names_same
      rw [same_trans (same_trans one_same spelled_same) (same_symm two_same)] at apart
      cases apart

-- Two assets in one directory, a-b.bin and a_b.bin.
def dashAndUnderscore : Embedding where
  load _ := some ([],0,0)
  assets := "assets".toList
  directives := ["a-b.bin".toList,"a_b.bin".toList]
  received := [("a-b.bin".toList,"__embedded__a_b_bin".toList),("a_b.bin".toList,"__embedded__a_b_bin".toList)]
  resources := [⟨"assets/a-b.bin".toList,"__embedded__a_b_bin".toList,[],0,0⟩,
    ⟨"assets/a_b.bin".toList,"__embedded__a_b_bin".toList,[],0,0⟩]
  completed := by rfl

-- Files that are told apart by the names on their paths.
def plainFiles : Files (Bool × List Text) := ⟨fun p => (isAbsolute p,elements p),fun _ _ equal =>
  Prod.ext_iff.mpr (same_iff.mp equal)⟩

theorem two_assets_one_identifier :
    ¬∀ (File : Type) (files : Files File) (run : Embedding), UniqueNames files run := by
  intro every
  have apart := (every _ plainFiles dashAndUnderscore).apart _ List.mem_cons_self _
    (List.mem_cons_of_mem _ List.mem_cons_self)
  exact apart (by decide) rfl

end Preprocessor
