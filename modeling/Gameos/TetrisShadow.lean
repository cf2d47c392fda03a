import Gameos.TetrisFalling
import Gameos.BoundedLoops

namespace Tetris

variable {block coords : Block_Coords} {game : Game} {sorter : Layer_Sort}

-- What stops the shadow of a block: a cell that is neither EMPTY nor the body's own.
def obstacle (game : Game) (block : Block_Coords) (offset : Nat) : Bool :=
  let next : Block_Coords := ⟨block.x,block.y,(block.z+offset) % 2^32⟩
  !decide (cell game.grid next = .EMPTY) && !falling_body_contains game.falling_body next

-- The inner loop, which starts from the number of layers below the block.
def block_offset (game : Game) (block : Block_Coords) : Nat :=
  let bottom := (((game.grid.layers : Int) - 1 - block.z) % 2^32).toNat
  match (List.range' 1 bottom).find? (obstacle game block) with
  | some offset => offset - 1
  | none => bottom

def tetris_shadow_layer_offset (game : Game) : Nat :=
  game.falling_body.foldl (fun shadow block => min shadow (block_offset game block)) game.grid.layers

-- while (falling_body_can_go_lower(game)) move_falling_body_lower(game), its
-- turns counted.
def dropTurn (sorter : Layer_Sort) (s : Nat × Game) : Except Unit (BoundedLoops.Turn (Nat × Game) (Nat × Game)) :=
  if falling_body_can_go_lower s.2 then .ok (.again (s.1+1,move_falling_body_lower sorter s.2)) else .ok (.done s)

def drop (sorter : Layer_Sort) (turns : Nat) (game : Game) : Except Unit (Nat × Game) :=
  BoundedLoops.loop () (dropTurn sorter) turns (0,game)

-- The cells marked FALLING are the distinct blocks of a body of one block or more.
structure Marked (game : Game) : Prop where
  empty : game.grid.default_value = .EMPTY
  small : game.grid.layers < 2^32
  nodup : game.falling_body.Nodup
  inside : ∀ block ∈ game.falling_body, Inside game.grid block
  falling : ∀ block, Inside game.grid block → (cell game.grid block = .FALLING ↔ block ∈ game.falling_body)
  nonempty : game.falling_body ≠ []

-- The body fits everywhere from where it is to `offset` layers below.
def Clears (game : Game) (offset : Nat) : Prop :=
  ∀ block ∈ game.falling_body, block.z + offset < game.grid.layers ∧
    ∀ below, 1 ≤ below → below ≤ offset → cell game.grid ⟨block.x,block.y,block.z+below⟩ ≠ .SOLID

theorem Marked.vacant (marked : Marked game) (here : Inside game.grid coords) :
    cell game.grid coords ≠ .SOLID ↔ cell game.grid coords = .EMPTY ∨ coords ∈ game.falling_body := by
  rw [← marked.falling coords here]
  cases cell game.grid coords <;> simp

theorem Marked.obstacle_exact (marked : Marked game) (member : block ∈ game.falling_body)
    (low : block.z + offset < game.grid.layers) :
    obstacle game block offset = true ↔ cell game.grid ⟨block.x,block.y,block.z+offset⟩ = .SOLID := by
  have here := marked.inside block member
  have word : (block.z+offset) % 2^32 = block.z+offset := Nat.mod_eq_of_lt (Nat.lt_trans low marked.small)
  have under : Inside game.grid ⟨block.x,block.y,block.z+offset⟩ := ⟨here.1,here.2.1,low⟩
  unfold obstacle falling_body_contains
  have vacant := marked.vacant under
  rw [word,← not_iff_not,← ne_eq (cell _ _),vacant]
  simp [or_iff_not_imp_left]

theorem bottom_exact {layers z : Nat} (inside : z < layers) (small : layers < 2^32) :
    (((layers : Int) - 1 - z) % 2^32).toNat = layers - 1 - z := by
  omega

theorem Marked.block_offset_exact (marked : Marked game) (member : block ∈ game.falling_body) (offset : Nat) :
    offset ≤ block_offset game block ↔ block.z + offset < game.grid.layers ∧
      ∀ below, 1 ≤ below → below ≤ offset → cell game.grid ⟨block.x,block.y,block.z+below⟩ ≠ .SOLID := by
  have here : block.z < game.grid.layers := (marked.inside block member).2.2
  unfold block_offset
  dsimp only
  rw [bottom_exact here marked.small]
  cases found : (List.range' 1 (game.grid.layers - 1 - block.z)).find? (obstacle game block) with
  | none =>
      have clear := List.find?_eq_none.mp found
      constructor
      · intro within
        refine ⟨by dsimp only at within; omega,fun below first last solid => ?_⟩
        have low : block.z + below < game.grid.layers := by dsimp only at within; omega
        refine clear below ?_ ((marked.obstacle_exact member low).mpr solid)
        exact List.mem_range'_1.mpr ⟨first,by omega⟩
      · intro ⟨low,_⟩
        dsimp only
        omega
  | some first =>
      obtain ⟨stops,before,after,split,clear⟩ := List.find?_eq_some_iff_append.mp found
      have range := List.mem_range'_1.mp (List.mem_of_find?_eq_some found)
      have low : block.z + first < game.grid.layers := by omega
      have solid := (marked.obstacle_exact member low).mp stops
      constructor
      · intro within
        dsimp only at within
        refine ⟨by omega,fun below start last blocked => ?_⟩
        have low' : block.z + below < game.grid.layers := by omega
        have earlier : below ∈ before := by
          have position : below ∈ before ++ first :: after := split ▸ List.mem_range'_1.mpr ⟨start,by omega⟩
          have sorted : (before ++ first :: after).Pairwise (· < ·) := split ▸ List.pairwise_lt_range'
          rcases List.mem_append.mp position with inside | rest
          · exact inside
          · have tail := (List.pairwise_append.mp sorted).2.1
            rcases List.mem_cons.mp rest with same | later
            · omega
            · have := (List.pairwise_cons.mp tail).1 below later
              omega
        have := clear below earlier
        rw [(marked.obstacle_exact member low').mpr blocked] at this
        cases this
      · intro ⟨_,free⟩
        dsimp only
        by_contra beyond
        exact free first range.1 (by omega) solid

theorem foldl_min (f : Block_Coords → Nat) (blocks : List Block_Coords) (start n : Nat) :
    n ≤ blocks.foldl (fun shadow block => min shadow (f block)) start ↔ n ≤ start ∧ ∀ block ∈ blocks, n ≤ f block := by
  induction blocks generalizing start with
  | nil => simp
  | cons block rest ih =>
      rw [List.foldl_cons,ih,Nat.le_min]
      simp [and_assoc]

-- The column-by-column computation is the distance the body fits.
theorem Marked.shadow_exact (marked : Marked game) (offset : Nat) :
    offset ≤ tetris_shadow_layer_offset game ↔ Clears game offset := by
  unfold tetris_shadow_layer_offset
  rw [foldl_min]
  constructor
  · intro ⟨_,each⟩ block member
    exact (marked.block_offset_exact member offset).mp (each block member)
  · intro clears
    obtain ⟨block,member⟩ := List.exists_mem_of_ne_nil _ marked.nonempty
    have low := (clears block member).1
    exact ⟨by omega,fun block member => (marked.block_offset_exact member offset).mpr (clears block member)⟩

theorem Marked.lower_exact (marked : Marked game) (member : block ∈ game.falling_body) : block.lower.z = block.z+1 := by
  have here := (marked.inside block member).2.2
  exact Nat.mod_eq_of_lt (Nat.lt_of_le_of_lt here marked.small)

-- One test of the loop looks one layer down.
theorem Marked.free_exact (marked : Marked game) : falling_body_can_go_lower game = true ↔ Clears game 1 := by
  unfold falling_body_can_go_lower
  rw [List.all_eq_true]
  refine forall₂_congr fun block member => ?_
  have here := marked.inside block member
  have next : (block.z+1) % 2^32 = block.z+1 := marked.lower_exact member
  have once : (∀ below, 1 ≤ below → below ≤ 1 → cell game.grid ⟨block.x,block.y,block.z+below⟩ ≠ .SOLID) ↔
      cell game.grid ⟨block.x,block.y,block.z+1⟩ ≠ .SOLID := by
    refine ⟨fun each => each 1 (Nat.le_refl 1) (Nat.le_refl 1),fun free below first last => ?_⟩
    have only : below = 1 := Nat.le_antisymm last first
    rwa [only]
  rw [once,next,Bool.or_eq_true]
  by_cases low : block.z + 1 < game.grid.layers
  · have under : Inside game.grid ⟨block.x,block.y,block.z+1⟩ := ⟨here.1,here.2.1,low⟩
    rw [marked.vacant under]
    have moves : game.grid.can_move_lower block.x block.y block.z = true ↔
        cell game.grid ⟨block.x,block.y,block.z+1⟩ = .EMPTY := by
      unfold Grid3.can_move_lower cell
      rw [if_neg (by omega),decide_eq_true_eq,marked.empty]
    simp [moves,low]
  · have outside : (⟨block.x,block.y,block.z+1⟩ : Block_Coords) ∉ game.falling_body :=
      fun own => low (marked.inside _ own).2.2
    have stuck : game.grid.can_move_lower block.x block.y block.z = false := by
      unfold Grid3.can_move_lower
      exact if_pos (by omega)
    simp [stuck,low,outside]

-- One turn of the loop: the body is a layer lower and no terrain changed.
theorem Marked.lowered (marked : Marked game) (free : Clears game 1) (sorter : Layer_Sort) :
    Marked (move_falling_body_lower sorter game) ∧
      (move_falling_body_lower sorter game).falling_body.Perm (game.falling_body.map Block_Coords.lower) ∧
      (move_falling_body_lower sorter game).grid.layers = game.grid.layers ∧
      ∀ block, Inside game.grid block →
        (cell (move_falling_body_lower sorter game).grid block = .SOLID ↔ cell game.grid block = .SOLID) := by
  have order := sorter.perm game.falling_body
  have under : ∀ block ∈ game.falling_body, Inside game.grid block.lower := by
    intro block member
    have here := marked.inside block member
    refine ⟨here.1,here.2.1,?_⟩
    rw [marked.lower_exact member]
    exact (free block member).1
  have vacant : ∀ block ∈ game.falling_body, cell game.grid block.lower ≠ .SOLID := by
    intro block member
    have same : block.lower = ⟨block.x,block.y,block.z+1⟩ := by
      have next := marked.lower_exact member
      unfold Block_Coords.lower at next ⊢
      dsimp only at next
      rw [next]
    rw [same]
    exact (free block member).2 1 (Nat.le_refl 1) (Nat.le_refl 1)
  obtain ⟨alike,cells⟩ := lower_cells (sorter.sorted game.falling_body) (fun block present =>
    have member := order.mem_iff.mp present
    ⟨marked.inside block member,under block member,marked.lower_exact member⟩) marked.empty
  have permuted := order.map Block_Coords.lower
  have fallen : ∀ coords, Inside game.grid coords → cell (move_falling_body_lower sorter game).grid coords =
      if coords ∈ game.falling_body.map Block_Coords.lower then .FALLING
      else if coords ∈ game.falling_body then .EMPTY else cell game.grid coords := by
    intro coords here
    have exact := cells coords here
    simp only [permuted.mem_iff,order.mem_iff] at exact
    exact exact
  refine ⟨⟨alike.2.2.2.trans marked.empty,?_,?_,?_,?_,?_⟩,permuted,alike.2.2.1,?_⟩
  · exact alike.2.2.1 ▸ marked.small
  · refine permuted.nodup_iff.mpr (marked.nodup.map_on ?_)
    intro a left b right same
    have one := marked.lower_exact left
    have two := marked.lower_exact right
    have x := congrArg Block_Coords.x same
    have y := congrArg Block_Coords.y same
    have z := congrArg Block_Coords.z same
    cases a
    cases b
    simp only [Block_Coords.lower] at x y one two z
    simp only [Block_Coords.mk.injEq]
    omega
  · intro block present
    obtain ⟨source,member,rfl⟩ := List.mem_map.mp (permuted.mem_iff.mp present)
    exact (inside_alike alike).mpr (under source member)
  · intro coords here
    have here' := (inside_alike alike).mp here
    rw [fallen coords here']
    have moved : coords ∈ (move_falling_body_lower sorter game).falling_body ↔
        coords ∈ game.falling_body.map Block_Coords.lower := permuted.mem_iff
    rw [moved]
    split
    · rename_i present
      simp [present]
    · rename_i absent
      simp only [absent,iff_false]
      split
      · simp
      · rename_i off
        exact fun falling => off ((marked.falling coords here').mp falling)
  · intro nothing
    have length := permuted.length_eq
    rw [show (sorter.sort game.falling_body).map Block_Coords.lower = [] from nothing] at length
    exact marked.nonempty (List.length_eq_zero_iff.mp (by simpa using length.symm))
  · intro block here
    rw [fallen block here]
    split
    · rename_i present
      obtain ⟨source,member,rfl⟩ := List.mem_map.mp present
      simp [vacant source member]
    · split
      · rename_i own
        simp [(marked.falling block here).mpr own]
      · exact Iff.rfl


theorem Marked.clears_lowered (marked : Marked game) (free : Clears game 1) (sorter : Layer_Sort) (offset : Nat) :
    Clears (move_falling_body_lower sorter game) offset ↔ Clears game (offset+1) := by
  obtain ⟨_,permuted,layers,same⟩ := marked.lowered free sorter
  have solid : ∀ block ∈ game.falling_body, ∀ below, block.z + 1 + below < game.grid.layers →
      (cell (move_falling_body_lower sorter game).grid ⟨block.x,block.y,block.z+1+below⟩ = .SOLID ↔
        cell game.grid ⟨block.x,block.y,block.z+(below+1)⟩ = .SOLID) := by
    intro block member below low
    have here := marked.inside block member
    have exact := same ⟨block.x,block.y,block.z+1+below⟩ ⟨here.1,here.2.1,low⟩
    rwa [show block.z+1+below = block.z+(below+1) by omega] at exact ⊢
  constructor
  · intro clears block member
    have fallen := permuted.mem_iff.mpr (List.mem_map_of_mem member)
    obtain ⟨low,rest⟩ := clears _ fallen
    rw [layers] at low
    rw [marked.lower_exact member] at low rest
    refine ⟨by omega,fun below first last => ?_⟩
    rcases Nat.lt_or_eq_of_le first with more | once
    · obtain ⟨further,rfl⟩ : ∃ further, below = further+1 := ⟨below-1,by omega⟩
      exact fun stuck => rest further (by omega) (by omega) ((solid block member further (by omega)).mpr stuck)
    · exact once ▸ (free block member).2 1 (Nat.le_refl 1) (Nat.le_refl 1)
  · intro clears fallen present
    obtain ⟨block,member,rfl⟩ := List.mem_map.mp (permuted.mem_iff.mp present)
    obtain ⟨low,rest⟩ := clears block member
    rw [layers,marked.lower_exact member]
    refine ⟨by omega,fun below first last stuck => ?_⟩
    exact rest (below+1) (by omega) (by omega) ((solid block member below (by omega)).mp stuck)

theorem Marked.shadow_lowered (marked : Marked game) (free : Clears game 1) (sorter : Layer_Sort) :
    tetris_shadow_layer_offset game = tetris_shadow_layer_offset (move_falling_body_lower sorter game) + 1 := by
  have marked' := (marked.lowered free sorter).1
  have exact : ∀ offset, offset ≤ tetris_shadow_layer_offset (move_falling_body_lower sorter game) ↔
      offset + 1 ≤ tetris_shadow_layer_offset game := by
    intro offset
    rw [marked'.shadow_exact,marked.shadow_exact,marked.clears_lowered free]
  have positive := (marked.shadow_exact 1).mpr free
  apply Nat.le_antisymm
  · have := (exact (tetris_shadow_layer_offset game - 1)).mpr (by omega)
    omega
  · exact (exact _).mp (Nat.le_refl _)

-- Induction on the offset: each turn of the loop takes one off it.
theorem Marked.drops (marked : Marked game) (sorter : Layer_Sort) (offset : tetris_shadow_layer_offset game = n) :
    ∃ after, after.falling_body.Perm (game.falling_body.map fun block => {block with z := block.z+n}) ∧
      ∀ counted turns, n < turns → BoundedLoops.loop () (dropTurn sorter) turns (counted,game) = .ok (counted+n,after) := by
  induction n generalizing game with
  | zero =>
      have stuck : ¬falling_body_can_go_lower game = true := by
        rw [marked.free_exact,← marked.shadow_exact,offset]
        omega
      refine ⟨game,by simp,fun counted turns enough => ?_⟩
      obtain ⟨turns,rfl⟩ : ∃ more, turns = more+1 := ⟨turns-1,by omega⟩
      have last : dropTurn sorter (counted,game) = .ok (.done (counted,game)) := if_neg stuck
      exact BoundedLoops.loop_done last () turns
  | succ n ih =>
      have free : Clears game 1 := (marked.shadow_exact 1).mp (by omega)
      obtain ⟨marked',permuted,_⟩ := marked.lowered free sorter
      have shorter := marked.shadow_lowered free sorter
      obtain ⟨after,order,run⟩ := ih marked' (by omega)
      refine ⟨after,order.trans ?_,fun counted turns enough => ?_⟩
      · have shifted := permuted.map fun block : Block_Coords => {block with z := block.z+n}
        refine shifted.trans (List.Perm.of_eq ?_)
        rw [List.map_map]
        refine List.map_congr_left fun block member => ?_
        show ({block.lower with z := block.lower.z+n} : Block_Coords) = _
        rw [marked.lower_exact member,Nat.add_assoc,Nat.add_comm 1 n]
        rfl
      · obtain ⟨turns,rfl⟩ : ∃ more, turns = more+1 := ⟨turns-1,by omega⟩
        have next : dropTurn sorter (counted,game) = .ok (.again (counted+1,move_falling_body_lower sorter game)) :=
          if_pos (marked.free_exact.mpr free)
        rw [BoundedLoops.loop_again next,run (counted+1) turns (by omega),Nat.add_assoc,Nat.add_comm 1 n]

-- The shadow is where the instant drop leaves the body.
theorem shadow_is_drop (sorter : Layer_Sort) (game : Game) (marked : Marked game) : ∃ after,
    (∀ turns, tetris_shadow_layer_offset game < turns →
      drop sorter turns game = .ok (tetris_shadow_layer_offset game,after)) ∧
    after.falling_body.Perm
      (game.falling_body.map fun block => {block with z := block.z + tetris_shadow_layer_offset game}) := by
  obtain ⟨after,order,run⟩ := marked.drops sorter rfl
  refine ⟨after,fun turns enough => ?_,order⟩
  have dropped := run 0 turns enough
  rwa [Nat.zero_add] at dropped

-- One block over two EMPTY cells.
def singleBlock : Game := {Game.new 1 1 3 0 with
  grid := setCell (.new 1 1 3 .EMPTY) .FALLING ⟨0,0,0⟩
  falling_body := [⟨0,0,0⟩]}

theorem singleBlock_marked : Marked singleBlock := by
  refine ⟨rfl,by decide,by decide,?_,?_,by decide⟩
  · intro block member
    obtain rfl := List.mem_singleton.mp member
    exact ⟨by decide,by decide,by decide⟩
  · rintro ⟨x,y,z⟩ ⟨row,col,layer⟩
    obtain rfl : x = 0 := Nat.lt_one_iff.mp row
    obtain rfl : y = 0 := Nat.lt_one_iff.mp col
    have three : z < 3 := layer
    obtain rfl | rfl | rfl : z = 0 ∨ z = 1 ∨ z = 2 := by omega
    all_goals decide

theorem shadow_is_drop_single : ∃ after, after.falling_body.Perm [⟨0,0,2⟩] ∧
    drop insertionSorter 3 singleBlock = .ok (2,after) := by
  obtain ⟨after,run,order⟩ := shadow_is_drop insertionSorter singleBlock singleBlock_marked
  have offset : tetris_shadow_layer_offset singleBlock = 2 := by decide
  rw [offset] at run order
  exact ⟨after,order,run 3 (by decide)⟩

end Tetris
