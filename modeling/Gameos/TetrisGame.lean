import Gameos.Grid3
import Mathlib.Data.List.Sort

namespace Tetris

-- Rows, columns and layers are u32 in the source, positions within a body s32.
structure Block_Coords where
  x : Nat
  y : Nat
  z : Nat
deriving DecidableEq, Repr

inductive Block_Type where
  | EMPTY
  | SOLID
  | FALLING
deriving DecidableEq, Repr

-- std::sort by descending layer: some permutation of its input in that order.
structure Layer_Sort where
  sort : List Block_Coords → List Block_Coords
  perm : ∀ blocks, (sort blocks).Perm blocks
  sorted : ∀ blocks, (sort blocks).Pairwise fun a b => b.z ≤ a.z

def available_bodies : List (List Block_Coords) := [
  [⟨0,0,0⟩,⟨0,0,1⟩],
  [⟨0,0,0⟩,⟨1,0,0⟩,⟨0,0,1⟩],
  [⟨0,0,0⟩,⟨0,0,1⟩,⟨0,0,2⟩,⟨0,0,3⟩],
  [⟨0,0,0⟩,⟨1,0,0⟩,⟨0,1,0⟩,⟨1,1,0⟩],
  [⟨0,0,0⟩,⟨0,0,1⟩,⟨0,0,2⟩,⟨1,0,2⟩],
  [⟨1,0,0⟩,⟨1,0,1⟩,⟨1,0,2⟩,⟨0,0,2⟩],
  [⟨0,0,0⟩,⟨0,0,1⟩,⟨0,0,2⟩,⟨1,0,1⟩],
  [⟨1,0,0⟩,⟨2,0,0⟩,⟨0,0,1⟩,⟨1,0,1⟩],
  [⟨0,0,0⟩,⟨1,0,0⟩,⟨1,0,1⟩,⟨2,0,1⟩],
  [⟨0,0,0⟩,⟨1,0,0⟩,⟨0,1,0⟩,⟨0,0,1⟩],
  [⟨0,0,0⟩,⟨1,0,0⟩,⟨1,1,0⟩,⟨1,1,1⟩],
  [⟨0,0,0⟩,⟨1,0,0⟩,⟨1,0,1⟩,⟨1,1,1⟩]]

-- krand::generate(from, to) of the drawn number it accepts: [from; to)
def generate (drawn lo hi : Nat) : Nat := lo + drawn % (hi-lo)

structure Game where
  grid : Grid3 Block_Type
  body_indices : Grid3 Nat
  falling_body : List Block_Coords
  falling_body_index : Nat
  next_falling_body_index : Nat
  game_over : Bool
  layers_to_destroy : List Nat

def Game.new (rows cols layers drawn : Nat) : Game :=
  ⟨.new rows cols layers .EMPTY,.new rows cols layers 0,[],0,generate drawn 0 available_bodies.length,false,[]⟩

-- Cells named by a block's coordinates.
section Cells
variable {α : Type}

def cell (g : Grid3 α) (block : Block_Coords) : α := g.value block.x block.y block.z

def setCell (g : Grid3 α) (v : α) (block : Block_Coords) : Grid3 α := g.set block.x block.y block.z v

def clearCell (g : Grid3 α) (block : Block_Coords) : Grid3 α := g.clear block.x block.y block.z

def Inside (g : Grid3 α) (block : Block_Coords) : Prop := g.Within block.x block.y block.z

end Cells

-- The loops `for (block : blocks) grid.set(block, FALLING)` and
-- `body_indices.set(block, cast(u8)index)`.
def Game.place (game : Game) (blocks : List Block_Coords) (index : Nat) : Game :=
  {game with grid := blocks.foldl (setCell · .FALLING ·) game.grid,
             body_indices := blocks.foldl (setCell · (index % 2^8) ·) game.body_indices}

def falling_body_contains (body : List Block_Coords) (coords : Block_Coords) : Bool := body.contains coords

def produce_new_falling_body (sorter : Layer_Sort) (drawn : Nat) (game : Game) : Game × Bool :=
  let body_index := game.next_falling_body_index
  let game := {game with next_falling_body_index := generate drawn 0 available_bodies.length}
  let falling_body := sorter.sort (available_bodies.getD body_index [])
  if falling_body.all fun block => decide (cell game.grid block = .EMPTY) then
    ({game.place falling_body body_index with falling_body := falling_body, falling_body_index := body_index},true)
  else (game,false)

def falling_body_can_go_lower (game : Game) : Bool :=
  game.falling_body.all fun block =>
    game.grid.can_move_lower block.x block.y block.z ||
      game.falling_body.contains ⟨block.x,block.y,(block.z+1) % 2^32⟩

inductive Rotation_Axis where
  | X
  | Y
  | Z
deriving DecidableEq, Repr

def s32 (value : Int) : Int := value.bmod (2^32)

structure Vector3 where
  x : Int
  y : Int
  z : Int
deriving DecidableEq, Repr

-- Vector3<s32>(block)
def Vector3.of (block : Block_Coords) : Vector3 := ⟨s32 block.x,s32 block.y,s32 block.z⟩

def rotate_90_doubled (block : Block_Coords) (center_twice : Vector3) (axis : Rotation_Axis) : Vector3 :=
  let position := Vector3.of block
  let position_twice : Vector3 := ⟨s32 (position.x*2),s32 (position.y*2),s32 (position.z*2)⟩
  let difference : Vector3 := ⟨s32 (position_twice.x-center_twice.x),s32 (position_twice.y-center_twice.y),
    s32 (position_twice.z-center_twice.z)⟩
  let rotated : Vector3 := match axis with
    | .X => ⟨difference.x,s32 (-difference.z),difference.y⟩
    | .Y => ⟨difference.z,difference.y,s32 (-difference.x)⟩
    | .Z => ⟨s32 (-difference.y),difference.x,difference.z⟩
  ⟨s32 (center_twice.x+rotated.x),s32 (center_twice.y+rotated.y),s32 (center_twice.z+rotated.z)⟩

def U32_MAX : Nat := 2^32-1

-- cast(s32)(min + max) of one coordinate of the blocks, in u32.
def minMaxSum (coordinates : List Nat) : Int :=
  s32 (((coordinates.foldl min U32_MAX + coordinates.foldl max 0) % 2^32 : Nat) : Int)

def center_twice (blocks : List Block_Coords) : Vector3 :=
  ⟨minMaxSum (blocks.map (·.x)),minMaxSum (blocks.map (·.y)),minMaxSum (blocks.map (·.z))⟩

-- A rotated or moved block may stand where the grid is EMPTY or where the body
-- itself stands.
def Game.accepts (game : Game) (coords : Block_Coords) : Bool :=
  decide (cell game.grid coords = .EMPTY) || falling_body_contains game.falling_body coords

def rotatedBlock (game : Game) (center : Vector3) (axis : Rotation_Axis) (block : Block_Coords) : Option Block_Coords :=
  let rotated_twice := rotate_90_doubled block center axis
  if rotated_twice.x % 2 ≠ 0 ∨ rotated_twice.y % 2 ≠ 0 ∨ rotated_twice.z % 2 ≠ 0 then none
  else
    let rotated_position : Vector3 := ⟨rotated_twice.x.tdiv 2,rotated_twice.y.tdiv 2,rotated_twice.z.tdiv 2⟩
    if rotated_position.x < 0 ∨ rotated_position.y < 0 ∨ rotated_position.z < 0 then none
    else
      let new_coords : Block_Coords := ⟨rotated_position.x.toNat,rotated_position.y.toNat,rotated_position.z.toNat⟩
      if new_coords.x ≥ game.grid.rows ∨ new_coords.y ≥ game.grid.cols ∨ new_coords.z ≥ game.grid.layers then none
      else if game.accepts new_coords then some new_coords else none

-- Clear the body's cells and set those of its new blocks.
def Game.rePlace (game : Game) (blocks : List Block_Coords) : Game :=
  {{game with grid := game.falling_body.foldl clearCell game.grid}.place blocks game.falling_body_index with
    falling_body := blocks}

def try_rotating_falling_body (sorter : Layer_Sort) (axis : Rotation_Axis) (game : Game) : Game × Bool :=
  match game.falling_body.mapM (rotatedBlock game (center_twice game.falling_body) axis) with
  | none => (game,false)
  | some rotated => (game.rePlace (sorter.sort rotated),true)

def movedBlock (game : Game) (row_delta col_delta : Int) (block : Block_Coords) : Option Block_Coords :=
  let new_row := s32 (s32 block.x + row_delta)
  let new_col := s32 (s32 block.y + col_delta)
  if new_row < 0 ∨ new_col < 0 ∨ new_row ≥ s32 game.grid.rows ∨ new_col ≥ s32 game.grid.cols then none
  else
    let new_coords : Block_Coords := ⟨new_row.toNat,new_col.toNat,block.z⟩
    if game.accepts new_coords then some new_coords else none

def try_moving_falling_body (row_delta col_delta : Int) (game : Game) : Game × Bool :=
  match game.falling_body.mapM (movedBlock game row_delta col_delta) with
  | none => (game,false)
  | some moved => (game.rePlace moved,true)

def Block_Coords.lower (block : Block_Coords) : Block_Coords := {block with z := (block.z+1) % 2^32}

def lowerBlock (game : Game) (block : Block_Coords) : Game :=
  {game with grid := setCell (clearCell game.grid block) .FALLING block.lower,
             body_indices := setCell game.body_indices (game.falling_body_index % 2^8) block.lower}

def move_falling_body_lower (sorter : Layer_Sort) (game : Game) : Game :=
  let blocks := sorter.sort game.falling_body
  {blocks.foldl lowerBlock game with falling_body := blocks.map Block_Coords.lower}

-- update: FALLING -> SOLID, then the full layers are scheduled, lowest first.
def solidify (game : Game) : Game :=
  let grid := game.falling_body.foldl (setCell · .SOLID ·) game.grid
  {game with grid := grid,
             layers_to_destroy := game.layers_to_destroy ++
               (List.range grid.layers).reverse.filter fun layer => grid.layer_filled_with layer .SOLID}

end Tetris
