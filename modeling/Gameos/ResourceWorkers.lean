import Gameos.EmbeddedResources
import Gameos.TransitionRuns

-- The worker threads and the vector they share. A call of find_or_create is one
-- action under the mutex of the pool; what it returned is read in another.
namespace ResourceWorkers
open Preprocessor FilesystemPaths TransitionRuns

-- A std::vector. Its elements move to a new storage when it grows, and the old
-- storage is freed.
structure Vector where
  storage : Nat
  capacity : Nat
  elements : List Resource

structure Pointer where
  storage : Nat
  index : Nat
deriving DecidableEq, Repr

def Vector.pushBack (v : Vector) (r : Resource) : Vector :=
  if v.elements.length < v.capacity then {v with elements := v.elements ++ [r]}
  else ⟨v.storage+1,v.elements.length + max v.elements.length 1,v.elements ++ [r]⟩

-- What a pointer shows; none in freed storage.
def Vector.at (v : Vector) (p : Pointer) : Option Resource :=
  if p.storage = v.storage then v.elements[p.index]? else none

-- Resource_Pool::find_or_create
def Vector.findOrCreate (load : Loader) (v : Vector) (assetPath name : Text) : Option (Pointer × Vector) :=
  match v.elements.findIdx? fun r => same r.path assetPath with
  | some index => some (⟨v.storage,index⟩,v)
  | none => do
    let (data,size) ← load assetPath
    let after := v.pushBack ⟨assetPath,name,data,size⟩
    return (⟨after.storage,v.elements.length⟩,after)

-- Between the call and the use of its result: `returned` is what the pointer
-- showed when the call returned.
structure Held where
  path : Text
  pointer : Pointer
  returned : Option Resource

structure Worker where
  remaining : List Text
  held : Option Held
  output : List (Text × Option Text)

structure State where
  vector : Vector
  workers : Nat → Worker

inductive Action where
  | call (worker : Nat)
  | read (worker : Nat)
deriving DecidableEq, Repr

def State.put (s : State) (w : Nat) (worker : Worker) (other : Nat) : Worker := if other = w then worker else s.workers other

def step (load : Loader) (assets : Text) (s : State) : Action → Option State
  | .call w =>
    match (s.workers w).held,(s.workers w).remaining with
    | none,path :: rest => do
      let (pointer,vector) ← s.vector.findOrCreate load (join assets path) (embedIdentifier path)
      return ⟨vector,s.put w ⟨rest,some ⟨path,pointer,vector.at pointer⟩,(s.workers w).output⟩⟩
    | _,_ => none
  | .read w =>
    match (s.workers w).held with
    | some held => some {s with workers := s.put w ⟨(s.workers w).remaining,none,
        (s.workers w).output ++ [(held.path,(s.vector.at held.pointer).map (·.name))]⟩}
    | none => none

def Step (load : Loader) (assets : Text) (s : State) (action : Action) (t : State) : Prop :=
  step load assets s action = some t

-- Each worker with the directives of its files, and the pool empty.
def start (directives : Nat → List Text) : State := ⟨⟨0,0,[]⟩,fun w => ⟨directives w,none,[]⟩⟩

-- Every pointer shows what it did when it was returned, and every identifier
-- written so far is that of its directive.
structure Sees (s : State) : Prop where
  pointers : ∀ w held, (s.workers w).held = some held → (s.vector.at held.pointer).isSome = true ∧
    s.vector.at held.pointer = held.returned
  written : ∀ w, ∀ one ∈ (s.workers w).output, one.2 = some (embedIdentifier one.1)

-- The call puts a new resource into a vector that is full.
def Vector.Grows (v : Vector) (assetPath : Text) : Prop :=
  (∀ r ∈ v.elements, same r.path assetPath = false) ∧ v.capacity ≤ v.elements.length

-- No worker holds a pointer when the vector grows.
def Settled (assets : Text) (s : State) : Action → Prop
  | .call w => ∀ path rest, (s.workers w).remaining = path :: rest → s.vector.Grows (join assets path) →
      ∀ other, (s.workers other).held = none
  | .read _ => True

theorem pushBack_elements (v : Vector) (r : Resource) : (v.pushBack r).elements = v.elements ++ [r] := by
  unfold Vector.pushBack
  split <;> rfl

theorem pushBack_new (v : Vector) (r : Resource) : (v.pushBack r).at ⟨(v.pushBack r).storage,v.elements.length⟩ = some r := by
  unfold Vector.at
  rw [if_pos rfl,pushBack_elements]
  simp

-- With room the elements stay where they are.
theorem pushBack_kept (v : Vector) (r : Resource) (room : v.elements.length < v.capacity) {p : Pointer}
    (valid : (v.at p).isSome = true) : (v.pushBack r).at p = v.at p := by
  have storage : (v.pushBack r).storage = v.storage := by
    unfold Vector.pushBack
    rw [if_pos room]
  unfold Vector.at at valid ⊢
  rw [storage,pushBack_elements]
  split at valid
  · rename_i here
    rw [if_pos here,if_pos here]
    obtain ⟨found,there⟩ := Option.isSome_iff_exists.mp valid
    rw [there,List.getElem?_append_left (List.getElem?_eq_some_iff.mp there).1,there]
  · cases valid

theorem pushBack_moved (v : Vector) (r : Resource) (full : v.capacity ≤ v.elements.length) {p : Pointer}
    (valid : (v.at p).isSome = true) : (v.pushBack r).at p = none := by
  have storage : (v.pushBack r).storage = v.storage+1 := by
    unfold Vector.pushBack
    rw [if_neg (Nat.not_lt.mpr full)]
  unfold Vector.at at valid ⊢
  split at valid
  · rename_i here
    rw [if_neg (by omega)]
  · cases valid

-- An entry of the path, or a new one.
theorem findOrCreate_cases {v after : Vector} (called : v.findOrCreate load assetPath name = some (pointer,after)) :
    (∃ r ∈ v.elements, same r.path assetPath = true ∧ after = v ∧ v.at pointer = some r) ∨
      ∃ r, (∀ old ∈ v.elements, same old.path assetPath = false) ∧ after = v.pushBack r ∧
        after.at pointer = some r ∧ r.path = assetPath ∧ r.name = name := by
  unfold Vector.findOrCreate at called
  cases found : v.elements.findIdx? (fun r => same r.path assetPath) with
  | some index =>
      rw [found] at called
      cases called
      obtain ⟨inside,equal,_⟩ := List.findIdx?_eq_some_iff_getElem.mp found
      refine .inl ⟨v.elements[index],List.getElem_mem inside,equal,rfl,?_⟩
      unfold Vector.at
      rw [if_pos rfl,List.getElem?_eq_getElem inside]
  | none =>
      rw [found] at called
      cases loaded : load assetPath with
      | none => simp [loaded] at called
      | some bytes =>
          simp only [loaded,Option.pure_def,Option.bind_eq_bind,Option.bind_some,Option.some.injEq,Prod.mk.injEq] at called
          obtain ⟨rfl,rfl⟩ := called
          exact .inr ⟨_,List.findIdx?_eq_none_iff.mp found,rfl,pushBack_new v _,rfl,rfl⟩

-- Through the pointer it is the call of the pool as a list.
theorem findOrCreate_refines (load : Loader) (v : Vector) (assetPath name : Text) :
    (v.findOrCreate load assetPath name).map (fun (pointer,after) => (after.at pointer,after.elements)) =
      (Preprocessor.findOrCreate load v.elements assetPath name).map fun (r,resources) => (some r,resources) := by
  unfold Vector.findOrCreate Preprocessor.findOrCreate
  rw [List.find?_eq_bind_findIdx?_getElem?]
  cases found : v.elements.findIdx? (fun r => same r.path assetPath) with
  | some index =>
      have inside := (List.findIdx?_eq_some_iff_getElem.mp found).1
      simp [Vector.at,inside]
  | none =>
      cases loaded : load assetPath with
      | none => simp
      | some bytes => simp [pushBack_new,pushBack_elements]

-- What holds at every action as long as the vector grows only when it may.
structure Kept (s : State) : Prop where
  sees : Sees s
  pooled : Pooled s.vector.elements
  named : ∀ w held, (s.workers w).held = some held → ∃ r, held.returned = some r ∧ r.name = embedIdentifier held.path

theorem start_kept (directives : Nat → List Text) : Kept (start directives) := by
  refine ⟨⟨?_,?_⟩,⟨.nil,?_⟩,?_⟩ <;> simp [start]

-- The parts of an action.
theorem call_cases (moved : Step load assets s (.call w) t) : ∃ path rest pointer vector,
    (s.workers w).held = none ∧ (s.workers w).remaining = path :: rest ∧
    s.vector.findOrCreate load (join assets path) (embedIdentifier path) = some (pointer,vector) ∧
    t = ⟨vector,s.put w ⟨rest,some ⟨path,pointer,vector.at pointer⟩,(s.workers w).output⟩⟩ := by
  unfold Step step at moved
  cases held : (s.workers w).held with
  | some _ => simp [held] at moved
  | none =>
      cases remaining : (s.workers w).remaining with
      | nil => simp [held,remaining] at moved
      | cons path rest =>
          simp only [held,remaining] at moved
          cases called : s.vector.findOrCreate load (join assets path) (embedIdentifier path) with
          | none => simp [called] at moved
          | some answer =>
              obtain ⟨pointer,vector⟩ := answer
              simp only [called,Option.pure_def,Option.bind_eq_bind,Option.bind_some,Option.some.injEq] at moved
              exact ⟨path,rest,pointer,vector,rfl,rfl,called,moved.symm⟩

theorem read_cases (moved : Step load assets s (.read w) t) : ∃ held, (s.workers w).held = some held ∧
    t = {s with workers := s.put w ⟨(s.workers w).remaining,none,
      (s.workers w).output ++ [(held.path,(s.vector.at held.pointer).map (·.name))]⟩} := by
  unfold Step step at moved
  cases holds : (s.workers w).held with
  | none => simp [holds] at moved
  | some held =>
      simp only [holds,Option.some.injEq] at moved
      exact ⟨held,rfl,moved.symm⟩

theorem call_pooled {v after : Vector} (pooled : Pooled v.elements)
    (called : v.findOrCreate load (join assets path) (embedIdentifier path) = some (pointer,after)) :
    Pooled after.elements ∧ ∃ r, after.at pointer = some r ∧ r.name = embedIdentifier path := by
  have refined := findOrCreate_refines load v (join assets path) (embedIdentifier path)
  rw [called] at refined
  cases listed : Preprocessor.findOrCreate load v.elements (join assets path) (embedIdentifier path) with
  | none => simp [listed] at refined
  | some answer =>
      obtain ⟨r,resources⟩ := answer
      simp only [listed,Option.map_some,Option.some.injEq,Prod.mk.injEq] at refined
      obtain ⟨shown,rfl⟩ := refined
      obtain ⟨pooled',member,equal,_⟩ := findOrCreate_pooled pooled assets path listed
      refine ⟨pooled',r,shown,?_⟩
      rw [pooled'.named r member]
      exact embedIdentifier_same ((filename_same equal).trans (filename_join assets path))

theorem kept_step (kept : Kept s) (settled : Settled assets s action) (moved : Step load assets s action t) : Kept t := by
  cases action with
  | read w =>
      obtain ⟨held,holds,rfl⟩ := read_cases moved
      refine ⟨⟨?_,?_⟩,kept.pooled,?_⟩
      · intro other held' holds'
        simp only [State.put] at holds'
        split at holds'
        · cases holds'
        · exact kept.sees.pointers other held' holds'
      · intro other one member
        simp only [State.put] at member
        split at member
        · rcases List.mem_append.mp member with old | new
          · exact kept.sees.written w one old
          · obtain rfl := List.mem_singleton.mp new
            obtain ⟨r,returned,name⟩ := kept.named w held holds
            dsimp only
            rw [(kept.sees.pointers w held holds).2,returned,Option.map_some,name]
        · exact kept.sees.written other one member
      · intro other held' holds'
        simp only [State.put] at holds'
        split at holds'
        · cases holds'
        · exact kept.named other held' holds'
  | call w =>
      obtain ⟨path,rest,pointer,vector,_,remaining,called,rfl⟩ := call_cases moved
      obtain ⟨pooled,r,shown,name⟩ := call_pooled kept.pooled called
      have stays : ∀ other held, (s.workers other).held = some held → vector.at held.pointer = s.vector.at held.pointer := by
        intro other held holds
        obtain ⟨_,_,_,rfl,_⟩ | ⟨new,absent,rfl,_⟩ := findOrCreate_cases called
        · rfl
        · refine pushBack_kept s.vector new ?_ (kept.sees.pointers other held holds).1
          by_contra full
          have nobody := settled path rest remaining ⟨absent,Nat.not_lt.mp full⟩ other
          rw [holds] at nobody
          cases nobody
      refine ⟨⟨?_,?_⟩,pooled,?_⟩
      · intro other held holds
        simp only [State.put] at holds
        split at holds
        · cases holds
          exact ⟨by rw [shown]; rfl,rfl⟩
        · have before := kept.sees.pointers other held holds
          dsimp only
          rwa [stays other held holds]
      · intro other one member
        simp only [State.put] at member
        split at member
        · exact kept.sees.written w one member
        · exact kept.sees.written other one member
      · intro other held holds
        simp only [State.put] at holds
        split at holds
        · cases holds
          exact ⟨r,shown,name⟩
        · exact kept.named other held holds

-- Where a vector grows under a pointer, the pointer shows nothing any more.
theorem unsettled_step (kept : Kept s) (moved : Step load assets s action t) (sees : Sees t) : Settled assets s action := by
  cases action with
  | read w => trivial
  | call w =>
      obtain ⟨path,rest,pointer,vector,idle,remaining,called,rfl⟩ := call_cases moved
      intro path' rest' remaining' grows other
      rw [remaining] at remaining'
      obtain ⟨rfl,rfl⟩ := List.cons.inj remaining'
      cases holds : (s.workers other).held with
      | none => rfl
      | some held =>
          have different : other ≠ w := by
            intro same
            rw [same,idle] at holds
            cases holds
          have still : (s.put w ⟨rest,some ⟨path,pointer,vector.at pointer⟩,(s.workers w).output⟩ other).held = some held := by
            unfold State.put
            rwa [if_neg different]
          have shown := (sees.pointers other held still).1
          obtain ⟨r,member,equal,_⟩ | ⟨new,_,rfl,_⟩ := findOrCreate_cases called
          · rw [grows.1 r member] at equal
            cases equal
          · dsimp only at shown
            rw [pushBack_moved s.vector new grows.2 (kept.sees.pointers other held holds).1] at shown
            cases shown

-- A run of the tool from its start.
structure Working where
  load : Loader
  assets : Text
  directives : Nat → List Text
  actions : List Action
  final : State
  run : Run (Step load assets) (fun _ _ => True) (start directives) actions final

theorem settled_of_sees (kept : Kept s) (run : Run (Step load assets) (fun s _ => Sees s) s actions t) (last : Sees t) :
    Run (Step load assets) (Settled assets) s actions t := by
  induction run with
  | nil => exact .nil
  | cons _ moved rest ih =>
      have settled := unsettled_step kept moved (rest.begins last)
      exact .cons settled moved (ih (kept_step kept settled moved) last)

-- In every state of a run the pointers show what they should, if and only if the
-- vector never grows while a worker holds one.
theorem pointers_seen_exact (w : Working) :
    (Run (Step w.load w.assets) (fun s _ => Sees s) (start w.directives) w.actions w.final ∧ Sees w.final) ↔
      Run (Step w.load w.assets) (Settled w.assets) (start w.directives) w.actions w.final := by
  have begun := start_kept w.directives
  constructor
  · intro ⟨run,last⟩
    exact settled_of_sees begun run last
  · intro run
    refine ⟨run.weaken (fun _ _ _ => kept_step) (fun _ _ _ kept _ _ => kept.sees) begun,?_⟩
    exact (run.keeps Kept (fun _ _ _ => kept_step) begun).sees

-- Two workers with a directive each.
def twoFiles : Nat → List Text
  | 0 => ["a".toList]
  | 1 => ["b".toList]
  | _ => []

def emptyFiles : Loader := fun _ => some ([],0,0)

-- The second call grows the vector before the first worker has read its result.
def overtaking : List Action := [.call 0,.call 1,.read 0]

theorem overtaken : (follow (step emptyFiles []) (fun _ _ => true) (start twoFiles) overtaking).map
    (fun s => (s.workers 0).output) = some [("a".toList,none)] := by decide

theorem pointer_outlived : ¬∀ w : Working,
    Run (Step w.load w.assets) (fun s _ => Sees s) (start w.directives) w.actions w.final ∧ Sees w.final := by
  intro every
  obtain ⟨final,followed,output⟩ := Option.map_eq_some_iff.mp overtaken
  have run : Run (Step emptyFiles []) (fun _ _ => True) (start twoFiles) overtaking final :=
    follow_run _ _ (fun _ _ _ moved => moved) (fun _ _ _ => trivial) followed
  have written := (every ⟨emptyFiles,[],twoFiles,overtaking,final,run⟩).2.written 0
  rw [output] at written
  have name := written _ List.mem_cons_self
  cases name

end ResourceWorkers
