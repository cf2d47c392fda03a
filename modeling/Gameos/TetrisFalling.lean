import Gameos.TetrisGame
import Gameos.TransitionRuns
import Mathlib.Data.List.Forall2

namespace Tetris
open PointwiseLoops

variable {α : Type} {g h : Grid3 α} {block coords a b : Block_Coords} {blocks : List Block_Coords}
variable {game after : Game}

theorem inside_alike (alike : Grid3.Alike g h) : Inside g block ↔ Inside h block := alike.within

theorem cell_set (here : Inside g block) (there : Inside g coords) (v : α) :
    cell (setCell g v block) coords = if coords = block then v else cell g coords := by
  unfold cell setCell
  rw [Grid3.value_set here there]
  have same : (coords.x = block.x ∧ coords.y = block.y ∧ coords.z = block.z) ↔ coords = block := by
    cases coords
    cases block
    simp
  simp only [same]

theorem setCell_alike (g : Grid3 α) (v : α) (block : Block_Coords) : Grid3.Alike (setCell g v block) g :=
  Grid3.set_alike ..

-- Setting the cells of distinct blocks, one after another.
theorem cells_set (nodup : blocks.Nodup) (inside : ∀ block ∈ blocks, Inside g block) (v : α) :
    Grid3.Alike (blocks.foldl (setCell · v ·) g) g ∧ ∀ coords, Inside g coords →
      cell (blocks.foldl (setCell · v ·) g) coords = if coords ∈ blocks then v else cell g coords := by
  have loc : Local (setCell · v ·) cell (fun _ _ => v) (fun s => Grid3.Alike s g) (Inside g) := by
    refine ⟨?_,?_,?_⟩
    · intro s block alike _
      exact (setCell_alike s v block).trans alike
    · intro s block alike here
      have here' := (inside_alike alike).mpr here
      rw [cell_set here' here',if_pos rfl]
    · intro s block coords alike here there apart
      rw [cell_set ((inside_alike alike).mpr here) ((inside_alike alike).mpr there),if_neg apart]
  exact ⟨loc.valid_loop inside (Grid3.Alike.refl g),fun coords there => loc.loop nodup inside (Grid3.Alike.refl g) there⟩

theorem cells_clear (nodup : blocks.Nodup) (inside : ∀ block ∈ blocks, Inside g block) :
    Grid3.Alike (blocks.foldl clearCell g) g ∧ ∀ coords, Inside g coords →
      cell (blocks.foldl clearCell g) coords = if coords ∈ blocks then g.default_value else cell g coords := by
  have loc : Local clearCell cell (fun _ _ => g.default_value) (fun s => Grid3.Alike s g) (Inside g) := by
    refine ⟨?_,?_,?_⟩
    · intro s block alike _
      exact (setCell_alike s s.default_value block).trans alike
    · intro s block alike here
      have here' := (inside_alike alike).mpr here
      show cell (setCell s s.default_value block) block = _
      rw [cell_set here' here',if_pos rfl,alike.2.2.2]
    · intro s block coords alike here there apart
      show cell (setCell s s.default_value block) coords = _
      rw [cell_set ((inside_alike alike).mpr here) ((inside_alike alike).mpr there),if_neg apart]
  exact ⟨loc.valid_loop inside (Grid3.Alike.refl g),fun coords there => loc.loop nodup inside (Grid3.Alike.refl g) there⟩

-- Blocks less than 2^30 apart in every direction.
def Narrow (blocks : List Block_Coords) : Prop :=
  ∀ a ∈ blocks, ∀ b ∈ blocks, a.x < b.x+2^30 ∧ a.y < b.y+2^30 ∧ a.z < b.z+2^30

-- Both grids have the same u32 shape, and an unset cell is EMPTY.
structure Shaped (game : Game) : Prop where
  rows : game.body_indices.rows = game.grid.rows
  cols : game.body_indices.cols = game.grid.cols
  layers : game.body_indices.layers = game.grid.layers
  empty : game.grid.default_value = .EMPTY
  small : game.grid.rows < 2^32 ∧ game.grid.cols < 2^32 ∧ game.grid.layers < 2^32

-- The cells marked FALLING are the blocks of the falling body, once each.
structure Falls (game : Game) : Prop where
  nodup : game.falling_body.Nodup
  inside : ∀ block ∈ game.falling_body, Inside game.grid block
  falling : ∀ block, Inside game.grid block → (cell game.grid block = .FALLING ↔ block ∈ game.falling_body)
  indexed : ∀ block ∈ game.falling_body, cell game.body_indices block = game.falling_body_index % 2^8

-- No cell becomes or stops being SOLID.
def SameSolid (before after : Game) : Prop :=
  Grid3.Alike after.grid before.grid ∧
    ∀ block, Inside before.grid block → (cell after.grid block = .SOLID ↔ cell before.grid block = .SOLID)

theorem Shaped.indices (shaped : Shaped game) : Inside game.body_indices block ↔ Inside game.grid block := by
  unfold Inside Grid3.Within
  rw [shaped.rows,shaped.cols,shaped.layers]

-- A body set down on cells that are EMPTY or were just cleared.
theorem place_falls (shaped : Shaped game) (nodup : blocks.Nodup) (inside : ∀ block ∈ blocks, Inside game.grid block)
    (vacant : ∀ block, Inside game.grid block → cell game.grid block ≠ .FALLING) (index : Nat) :
    Shaped (game.place blocks index) ∧
    Falls {game.place blocks index with falling_body := blocks, falling_body_index := index} := by
  obtain ⟨alike,cells⟩ := cells_set nodup inside Block_Type.FALLING
  have inside' : ∀ block ∈ blocks, Inside game.body_indices block := fun block member => shaped.indices.mpr (inside block member)
  obtain ⟨alike',indices⟩ := cells_set nodup inside' (index % 2^8)
  refine ⟨⟨?_,?_,?_,?_,?_⟩,⟨nodup,?_,?_,?_⟩⟩
  · exact alike'.1.trans (shaped.rows.trans alike.1.symm)
  · exact alike'.2.1.trans (shaped.cols.trans alike.2.1.symm)
  · exact alike'.2.2.1.trans (shaped.layers.trans alike.2.2.1.symm)
  · exact alike.2.2.2.trans shaped.empty
  · unfold Game.place
    dsimp only
    rw [alike.1,alike.2.1,alike.2.2.1]
    exact shaped.small
  · intro block member
    exact (inside_alike alike).mpr (inside block member)
  · intro block here
    have here' := (inside_alike alike).mp here
    show cell (blocks.foldl (setCell · .FALLING ·) game.grid) block = .FALLING ↔ _
    rw [cells block here']
    split
    · simp_all
    · simp_all
  · intro block member
    show cell (blocks.foldl (setCell · (index % 2^8) ·) game.body_indices) block = _
    rw [indices block (inside' block member),if_pos member]

-- What a loop that gives up at the first refusal has computed.
theorem mapM_related {f : Block_Coords → Option Block_Coords} (mapped : blocks.mapM f = some images) :
    List.Forall₂ (fun block image => f block = some image) blocks images := by
  induction blocks generalizing images with
  | nil =>
      cases mapped
      exact .nil
  | cons block rest ih =>
      rw [List.mapM_cons] at mapped
      cases image : f block with
      | none => simp [image] at mapped
      | some first =>
          cases later : rest.mapM f with
          | none => simp [image,later] at mapped
          | some others =>
              simp only [image,later] at mapped
              cases mapped
              exact .cons image (ih later)

theorem related_member {R : Block_Coords → Block_Coords → Prop} (related : List.Forall₂ R blocks images)
    (member : image ∈ images) : ∃ block ∈ blocks, R block image := by
  induction related with
  | nil => cases member
  | cons here _ ih =>
      rcases List.mem_cons.mp member with rfl | later
      · exact ⟨_,List.mem_cons_self,here⟩
      · obtain ⟨block,present,relates⟩ := ih later
        exact ⟨block,List.mem_cons_of_mem _ present,relates⟩

theorem related_nodup {R : Block_Coords → Block_Coords → Prop} (related : List.Forall₂ R blocks images)
    (nodup : blocks.Nodup) (unique : ∀ a ∈ blocks, ∀ b ∈ blocks, ∀ image, R a image → R b image → a = b) :
    images.Nodup := by
  induction related with
  | nil => exact List.nodup_nil
  | @cons block image blocks images here rest ih =>
      obtain ⟨fresh,others⟩ := List.nodup_cons.mp nodup
      refine List.nodup_cons.mpr ⟨?_,?_⟩
      · intro again
        obtain ⟨other,present,relates⟩ := related_member rest again
        have same := unique block List.mem_cons_self other (List.mem_cons_of_mem _ present) image here relates
        exact fresh (by rw [same]; exact present)
      · exact ih others fun a left b right =>
          unique a (List.mem_cons_of_mem _ left) b (List.mem_cons_of_mem _ right)

-- s32 arithmetic is exact up to multiples of 2^32.
theorem s32_cases (v : Int) :
    s32 v = v % 4294967296 ∧ v % 4294967296 < 2147483648 ∨
      s32 v = v % 4294967296 - 4294967296 ∧ 2147483648 ≤ v % 4294967296 := by
  have half : (((2^32 : Nat) : Int)+1)/2 = 2147483648 := by decide
  have whole : ((2^32 : Nat) : Int) = 4294967296 := by norm_num
  unfold s32 Int.bmod
  dsimp only
  rw [half,whole]
  split
  · exact .inl ⟨rfl,‹_›⟩
  · exact .inr ⟨rfl,by omega⟩

theorem s32_exact (v : Int) : ∃ k, s32 v = v + 4294967296*k := by
  rcases s32_cases v with ⟨value,_⟩ | ⟨value,_⟩
  · exact ⟨-(v/4294967296),by omega⟩
  · exact ⟨-(v/4294967296)-1,by omega⟩

theorem s32_range (v : Int) : -2147483648 ≤ s32 v ∧ s32 v < 2147483648 := by
  rcases s32_cases v with ⟨value,_⟩ | ⟨value,_⟩ <;> omega

theorem s32_le {n : Nat} (nonnegative : 0 ≤ s32 n) : s32 n ≤ n := by
  rcases s32_cases n with ⟨value,_⟩ | ⟨value,_⟩ <;> omega

-- One coordinate of a moved block.
theorem moved_coordinate (old n : Nat) (delta : Int) (nonnegative : 0 ≤ s32 (s32 old + delta))
    (bound : s32 (s32 old + delta) < s32 n) :
    (∃ k, ((s32 (s32 old + delta)).toNat : Int) = old + delta + 4294967296*k) ∧
      (s32 (s32 old + delta)).toNat < 2147483648 ∧ (s32 (s32 old + delta)).toNat < n := by
  obtain ⟨k,first⟩ := s32_exact old
  obtain ⟨l,second⟩ := s32_exact (s32 old + delta)
  have range := s32_range (s32 old + delta)
  have rows := s32_le (n := n) (by omega)
  have natural := Int.toNat_of_nonneg nonnegative
  exact ⟨⟨k+l,by omega⟩,by omega,by omega⟩

theorem movedBlock_exact (moved : movedBlock game row_delta col_delta block = some coords) :
    (∃ k, (coords.x : Int) = block.x + row_delta + 4294967296*k) ∧
      (∃ k, (coords.y : Int) = block.y + col_delta + 4294967296*k) ∧
      coords.z = block.z ∧ coords.x < 2147483648 ∧ coords.y < 2147483648 ∧ coords.x < game.grid.rows ∧
      coords.y < game.grid.cols ∧ game.accepts coords = true := by
  unfold movedBlock at moved
  dsimp only at moved
  split at moved
  · cases moved
  · rename_i inside
    simp only [not_or,not_lt,not_le,ge_iff_le] at inside
    split at moved
    · rename_i accepts
      obtain ⟨row,row_small,row_lt⟩ := moved_coordinate block.x game.grid.rows row_delta inside.1 inside.2.2.1
      obtain ⟨col,col_small,col_lt⟩ := moved_coordinate block.y game.grid.cols col_delta inside.2.1 inside.2.2.2
      have equal := Option.some.inj moved
      rw [equal] at accepts
      have x : (s32 (s32 block.x + row_delta)).toNat = coords.x := by rw [← equal]
      have y : (s32 (s32 block.y + col_delta)).toNat = coords.y := by rw [← equal]
      have z : block.z = coords.z := by rw [← equal]
      rw [x] at row row_small row_lt
      rw [y] at col col_small col_lt
      exact ⟨row,col,z.symm,row_small,col_small,row_lt,col_lt,accepts⟩
    · cases moved

section Turning
variable (c c' : Int) (v : Nat)

theorem doubled_exact : ∃ k, s32 (s32 (s32 v*2) - c) = 2*v - c + 4294967296*k := by
  obtain ⟨j,first⟩ := s32_exact v
  obtain ⟨k,second⟩ := s32_exact (s32 v*2)
  obtain ⟨l,third⟩ := s32_exact (s32 (s32 v*2) - c)
  exact ⟨2*j+k+l,by omega⟩

theorem kept_exact : ∃ k, s32 (c' + s32 (s32 (s32 v*2) - c)) = c' - c + 2*v + 4294967296*k := by
  obtain ⟨k,difference⟩ := doubled_exact c v
  obtain ⟨l,sum⟩ := s32_exact (c' + s32 (s32 (s32 v*2) - c))
  exact ⟨k+l,by omega⟩

theorem turned_exact : ∃ k, s32 (c' + s32 (-s32 (s32 (s32 v*2) - c))) = c' + c - 2*v + 4294967296*k := by
  obtain ⟨k,difference⟩ := doubled_exact c v
  obtain ⟨j,negated⟩ := s32_exact (-s32 (s32 (s32 v*2) - c))
  obtain ⟨l,sum⟩ := s32_exact (c' + s32 (-s32 (s32 (s32 v*2) - c)))
  exact ⟨j+l-k,by omega⟩

end Turning

-- Two numbers less than 2^30 apart whose doubles agree in 32 bits are equal.
theorem halves_equal {v w : Nat} {r r' base : Int} (near : v < w+2^30 ∧ w < v+2^30) (same : r = r')
    (one : (∃ k, r = base + 2*v + 4294967296*k) ∧ (∃ k, r' = base + 2*w + 4294967296*k) ∨
      (∃ k, r = base - 2*v + 4294967296*k) ∧ (∃ k, r' = base - 2*w + 4294967296*k)) : v = w := by
  rcases one with ⟨⟨k,left⟩,l,right⟩ | ⟨⟨k,left⟩,l,right⟩ <;> omega

-- Each axis turns the three coordinates among themselves, so no two blocks of a
-- narrow body turn onto one another.
theorem rotate_unique (center : Vector3) (axis : Rotation_Axis)
    (near : a.x < b.x+2^30 ∧ a.y < b.y+2^30 ∧ a.z < b.z+2^30) (near' : b.x < a.x+2^30 ∧ b.y < a.y+2^30 ∧ b.z < a.z+2^30)
    (same : rotate_90_doubled a center axis = rotate_90_doubled b center axis) : a = b := by
  have first := congrArg Vector3.x same
  have second := congrArg Vector3.y same
  have third := congrArg Vector3.z same
  have equal : a.x = b.x ∧ a.y = b.y ∧ a.z = b.z := by
    cases axis with
    | X =>
        simp only [rotate_90_doubled,Vector3.of] at first second third
        refine ⟨halves_equal ⟨near.1,near'.1⟩ first (.inl ⟨kept_exact _ _ _,kept_exact _ _ _⟩),
          halves_equal ⟨near.2.1,near'.2.1⟩ third (.inl ⟨kept_exact _ _ _,kept_exact _ _ _⟩),
          halves_equal ⟨near.2.2,near'.2.2⟩ second (.inr ⟨turned_exact _ _ _,turned_exact _ _ _⟩)⟩
    | Y =>
        simp only [rotate_90_doubled,Vector3.of] at first second third
        refine ⟨halves_equal ⟨near.1,near'.1⟩ third (.inr ⟨turned_exact _ _ _,turned_exact _ _ _⟩),
          halves_equal ⟨near.2.1,near'.2.1⟩ second (.inl ⟨kept_exact _ _ _,kept_exact _ _ _⟩),
          halves_equal ⟨near.2.2,near'.2.2⟩ first (.inl ⟨kept_exact _ _ _,kept_exact _ _ _⟩)⟩
    | Z =>
        simp only [rotate_90_doubled,Vector3.of] at first second third
        refine ⟨halves_equal ⟨near.1,near'.1⟩ second (.inl ⟨kept_exact _ _ _,kept_exact _ _ _⟩),
          halves_equal ⟨near.2.1,near'.2.1⟩ first (.inr ⟨turned_exact _ _ _,turned_exact _ _ _⟩),
          halves_equal ⟨near.2.2,near'.2.2⟩ third (.inl ⟨kept_exact _ _ _,kept_exact _ _ _⟩)⟩
  cases a
  cases b
  simp_all

theorem rotate_range (center : Vector3) (axis : Rotation_Axis) (block : Block_Coords) :
    (rotate_90_doubled block center axis).x < 2147483648 ∧ (rotate_90_doubled block center axis).y < 2147483648 ∧
      (rotate_90_doubled block center axis).z < 2147483648 :=
  ⟨(s32_range _).2,(s32_range _).2,(s32_range _).2⟩

theorem halved (even : r % 2 = 0) (nonnegative : 0 ≤ Int.tdiv r 2) : r = 2*((Int.tdiv r 2).toNat : Int) := by
  rw [Int.toNat_of_nonneg nonnegative]
  exact (Int.mul_tdiv_cancel' (Int.dvd_of_emod_eq_zero even)).symm

theorem rotatedBlock_exact (rotated : rotatedBlock game center axis block = some coords) :
    rotate_90_doubled block center axis = ⟨2*coords.x,2*coords.y,2*coords.z⟩ ∧ Inside game.grid coords ∧
      game.accepts coords = true := by
  unfold rotatedBlock at rotated
  dsimp only at rotated
  split at rotated
  · cases rotated
  · rename_i even
    simp only [ne_eq,not_or,Decidable.not_not] at even
    split at rotated
    · cases rotated
    · rename_i positive
      simp only [not_or,not_lt] at positive
      split at rotated
      · cases rotated
      · rename_i within
        simp only [not_or,ge_iff_le,not_le] at within
        split at rotated
        · rename_i accepts
          have equal := Option.some.inj rotated
          rw [equal] at accepts
          have x : ((rotate_90_doubled block center axis).x.tdiv 2).toNat = coords.x := by rw [← equal]
          have y : ((rotate_90_doubled block center axis).y.tdiv 2).toNat = coords.y := by rw [← equal]
          have z : ((rotate_90_doubled block center axis).z.tdiv 2).toNat = coords.z := by rw [← equal]
          have first := halved even.1 positive.1
          have second := halved even.2.1 positive.2.1
          have third := halved even.2.2 positive.2.2
          rw [x] at first within
          rw [y] at second within
          rw [z] at third within
          refine ⟨?_,within,accepts⟩
          rw [← first,← second,← third]
        · cases rotated

theorem place_cell (nodup : blocks.Nodup) (inside : ∀ block ∈ blocks, Inside game.grid block) (index : Nat)
    (here : Inside game.grid coords) :
    cell (game.place blocks index).grid coords = if coords ∈ blocks then .FALLING else cell game.grid coords :=
  (cells_set nodup inside Block_Type.FALLING).2 coords here

-- The body taken off the grid.
def Game.lifted (game : Game) : Game := {game with grid := game.falling_body.foldl clearCell game.grid}

theorem lifted_cell (shaped : Shaped game) (falls : Falls game) (here : Inside game.grid coords) :
    cell game.lifted.grid coords = if coords ∈ game.falling_body then .EMPTY else cell game.grid coords := by
  rw [← shaped.empty]
  exact (cells_clear falls.nodup falls.inside).2 coords here

theorem lifted_alike (falls : Falls game) : Grid3.Alike game.lifted.grid game.grid :=
  (cells_clear falls.nodup falls.inside).1

theorem lifted_shaped (shaped : Shaped game) (falls : Falls game) : Shaped game.lifted := by
  have alike := lifted_alike falls
  refine ⟨shaped.rows.trans alike.1.symm,shaped.cols.trans alike.2.1.symm,shaped.layers.trans alike.2.2.1.symm,
    alike.2.2.2.trans shaped.empty,?_⟩
  rw [alike.1,alike.2.1,alike.2.2.1]
  exact shaped.small

theorem rePlace_falls (shaped : Shaped game) (falls : Falls game) (nodup : blocks.Nodup)
    (inside : ∀ block ∈ blocks, Inside game.grid block) (accepted : ∀ block ∈ blocks, game.accepts block = true) :
    Shaped (game.rePlace blocks) ∧ Falls (game.rePlace blocks) ∧ SameSolid game (game.rePlace blocks) := by
  have alike := lifted_alike falls
  have inside' : ∀ block ∈ blocks, Inside game.lifted.grid block :=
    fun block member => (inside_alike alike).mpr (inside block member)
  have vacant : ∀ block, Inside game.lifted.grid block → cell game.lifted.grid block ≠ .FALLING := by
    intro block here
    rw [lifted_cell shaped falls ((inside_alike alike).mp here)]
    split
    · simp
    · rename_i off
      exact fun marked => off ((falls.falling block ((inside_alike alike).mp here)).mp marked)
  obtain ⟨shaped',falls'⟩ := place_falls (lifted_shaped shaped falls) nodup inside' vacant game.falling_body_index
  refine ⟨⟨shaped'.rows,shaped'.cols,shaped'.layers,shaped'.empty,shaped'.small⟩,falls',
    (cells_set nodup inside' Block_Type.FALLING).1.trans alike,?_⟩
  intro block here
  show cell (game.lifted.place blocks game.falling_body_index).grid block = _ ↔ _
  rw [place_cell nodup inside' _ ((inside_alike alike).mpr here),lifted_cell shaped falls here]
  have own : block ∈ game.falling_body → cell game.grid block = .FALLING := (falls.falling block here).mpr
  by_cases member : block ∈ blocks
  · -- the new block stands on an EMPTY cell or on one of the body's own
    have before : cell game.grid block = .EMPTY ∨ block ∈ game.falling_body := by
      simpa [Game.accepts,falling_body_contains] using accepted block member
    rw [if_pos member]
    rcases before with empty | mine
    · simp [empty]
    · simp [own mine]
  · rw [if_neg member]
    split
    · rename_i mine
      simp [own mine]
    · exact Iff.rfl

theorem move_falls (shaped : Shaped game) (falls : Falls game)
    (narrow : Narrow game.falling_body) (moved : try_moving_falling_body row_delta col_delta game = (after,true)) :
    Shaped after ∧ Falls after ∧ SameSolid game after ∧ Narrow after.falling_body := by
  unfold try_moving_falling_body at moved
  split at moved
  · cases moved
  · rename_i images mapped
    have related := mapM_related mapped
    have equal : game.rePlace images = after := congrArg Prod.fst moved
    subst equal
    have source : ∀ image ∈ images, ∃ block ∈ game.falling_body, movedBlock game row_delta col_delta block = some image :=
      fun image member => related_member related member
    have unique : images.Nodup := by
      refine related_nodup related falls.nodup ?_
      intro a left b right image one two
      obtain ⟨⟨k,x⟩,⟨l,y⟩,z,_⟩ := movedBlock_exact one
      obtain ⟨⟨k',x'⟩,⟨l',y'⟩,z',_⟩ := movedBlock_exact two
      obtain ⟨near,near',_⟩ := narrow a left b right
      obtain ⟨far,far',_⟩ := narrow b right a left
      have equal : a.x = b.x ∧ a.y = b.y ∧ a.z = b.z := ⟨by omega,by omega,by omega⟩
      cases a
      cases b
      simp_all
    have within : ∀ image ∈ images, Inside game.grid image := by
      intro image member
      obtain ⟨block,present,here⟩ := source image member
      obtain ⟨_,_,z,_,_,row,col,_⟩ := movedBlock_exact here
      exact ⟨row,col,by rw [z]; exact (falls.inside block present).2.2⟩
    have accepted : ∀ image ∈ images, game.accepts image = true := by
      intro image member
      obtain ⟨block,_,here⟩ := source image member
      obtain ⟨_,_,_,_,_,_,_,accepts⟩ := movedBlock_exact here
      exact accepts
    obtain ⟨shaped',falls',same⟩ := rePlace_falls shaped falls unique within accepted
    refine ⟨shaped',falls',same,?_⟩
    intro p left q right
    obtain ⟨a,present,here⟩ := source p left
    obtain ⟨b,present',there⟩ := source q right
    obtain ⟨⟨k,x⟩,⟨l,y⟩,z,small,small',_⟩ := movedBlock_exact here
    obtain ⟨⟨k',x'⟩,⟨l',y'⟩,z',tiny,tiny',_⟩ := movedBlock_exact there
    obtain ⟨near,near',near''⟩ := narrow a present b present'
    obtain ⟨far,far',_⟩ := narrow b present' a present
    exact ⟨by omega,by omega,by omega⟩

theorem rotate_falls (shaped : Shaped game) (falls : Falls game)
    (narrow : Narrow game.falling_body) (rotated : try_rotating_falling_body sorter axis game = (after,true)) :
    Shaped after ∧ Falls after ∧ SameSolid game after ∧ Narrow after.falling_body := by
  unfold try_rotating_falling_body at rotated
  split at rotated
  · cases rotated
  · rename_i images mapped
    have related := mapM_related mapped
    have equal : game.rePlace (sorter.sort images) = after := congrArg Prod.fst rotated
    subst equal
    have source : ∀ image ∈ sorter.sort images, ∃ block ∈ game.falling_body,
        rotatedBlock game (center_twice game.falling_body) axis block = some image :=
      fun image member => related_member related ((sorter.perm images).mem_iff.mp member)
    have unique : (sorter.sort images).Nodup := by
      refine (sorter.perm images).nodup_iff.mpr (related_nodup related falls.nodup ?_)
      intro a left b right image one two
      exact rotate_unique _ axis (narrow a left b right) (narrow b right a left)
        ((rotatedBlock_exact one).1.trans (rotatedBlock_exact two).1.symm)
    have within : ∀ image ∈ sorter.sort images, Inside game.grid image := by
      intro image member
      obtain ⟨block,_,here⟩ := source image member
      exact (rotatedBlock_exact here).2.1
    have accepted : ∀ image ∈ sorter.sort images, game.accepts image = true := by
      intro image member
      obtain ⟨block,_,here⟩ := source image member
      exact (rotatedBlock_exact here).2.2
    obtain ⟨shaped',falls',same⟩ := rePlace_falls shaped falls unique within accepted
    refine ⟨shaped',falls',same,?_⟩
    -- a doubled s32 coordinate leaves less than 2^30 for the coordinate itself
    have small : ∀ image ∈ sorter.sort images, image.x < 2^30 ∧ image.y < 2^30 ∧ image.z < 2^30 := by
      intro image member
      obtain ⟨block,_,here⟩ := source image member
      have range := rotate_range (center_twice game.falling_body) axis block
      rw [(rotatedBlock_exact here).1] at range
      exact ⟨by have := range.1; dsimp only at this; omega,by have := range.2.1; dsimp only at this; omega,
        by have := range.2.2; dsimp only at this; omega⟩
    intro p left q right
    obtain ⟨x,y,z⟩ := small p left
    exact ⟨by omega,by omega,by omega⟩

-- A body falls from the lowest block up, so no block is cleared after it is set.
theorem lower_cells (sorted : blocks.Pairwise fun a b => b.z ≤ a.z)
    (inside : ∀ block ∈ blocks, Inside game.grid block ∧ Inside game.grid block.lower ∧ block.lower.z = block.z+1)
    (empty : game.grid.default_value = .EMPTY) :
    Grid3.Alike (blocks.foldl lowerBlock game).grid game.grid ∧ ∀ coords, Inside game.grid coords →
      cell (blocks.foldl lowerBlock game).grid coords =
        if coords ∈ blocks.map Block_Coords.lower then .FALLING
        else if coords ∈ blocks then .EMPTY else cell game.grid coords := by
  induction blocks generalizing game with
  | nil => exact ⟨Grid3.Alike.refl _,fun _ _ => by simp⟩
  | cons block rest ih =>
      obtain ⟨below,sorted'⟩ := List.pairwise_cons.mp sorted
      obtain ⟨here,under,next⟩ := inside block List.mem_cons_self
      have alike : Grid3.Alike (lowerBlock game block).grid game.grid :=
        (setCell_alike _ _ _).trans (setCell_alike game.grid game.grid.default_value block)
      have inside' : ∀ block' ∈ rest, Inside (lowerBlock game block).grid block' ∧
          Inside (lowerBlock game block).grid block'.lower ∧ block'.lower.z = block'.z+1 := by
        intro block' later
        obtain ⟨one,two,three⟩ := inside block' (List.mem_cons_of_mem _ later)
        exact ⟨(inside_alike alike).mpr one,(inside_alike alike).mpr two,three⟩
      obtain ⟨alike',cells⟩ := ih sorted' inside' (alike.2.2.2.trans empty)
      refine ⟨alike'.trans alike,?_⟩
      intro coords there
      have cleared : Grid3.Alike (clearCell game.grid block) game.grid := setCell_alike _ _ _
      have first : cell (lowerBlock game block).grid coords =
          if coords = block.lower then .FALLING else if coords = block then .EMPTY else cell game.grid coords := by
        show cell (setCell (clearCell game.grid block) .FALLING block.lower) coords = _
        rw [cell_set ((inside_alike cleared).mpr under) ((inside_alike cleared).mpr there)]
        show (if _ then _ else cell (setCell game.grid game.grid.default_value block) coords) = _
        rw [cell_set here there,empty]
      rw [List.foldl_cons,cells coords ((inside_alike alike).mpr there),first,List.map_cons]
      by_cases fallen : coords ∈ rest.map Block_Coords.lower
      · rw [if_pos fallen,if_pos (List.mem_cons_of_mem _ fallen)]
      · by_cases target : coords = block.lower
        · have absent : coords ∉ rest := by
            intro later
            have := below coords later
            rw [target,next] at this
            omega
          rw [if_neg fallen,if_neg absent,if_pos target,if_pos (by rw [target]; exact List.mem_cons_self)]
        · have unfallen : coords ∉ block.lower :: rest.map Block_Coords.lower := by
            intro member
            rcases List.mem_cons.mp member with equal | later
            · exact target equal
            · exact fallen later
          rw [if_neg fallen,if_neg unfallen,if_neg target]
          by_cases own : coords = block
          · simp [own]
          · simp [own]

theorem lower_indices (inside : ∀ block ∈ blocks, Inside game.body_indices block.lower) :
    Grid3.Alike (blocks.foldl lowerBlock game).body_indices game.body_indices ∧
    (blocks.foldl lowerBlock game).falling_body_index = game.falling_body_index ∧
    ∀ coords, Inside game.body_indices coords → coords ∈ blocks.map Block_Coords.lower ∨
        cell game.body_indices coords = game.falling_body_index % 2^8 →
      cell (blocks.foldl lowerBlock game).body_indices coords = game.falling_body_index % 2^8 := by
  induction blocks generalizing game with
  | nil => exact ⟨Grid3.Alike.refl _,rfl,fun _ _ marked => marked.elim (fun absent => (nomatch absent)) id⟩
  | cons block rest ih =>
      have under := inside block List.mem_cons_self
      have alike : Grid3.Alike (lowerBlock game block).body_indices game.body_indices := setCell_alike _ _ _
      have inside' : ∀ block' ∈ rest, Inside (lowerBlock game block).body_indices block'.lower :=
        fun block' later => (inside_alike alike).mpr (inside block' (List.mem_cons_of_mem _ later))
      obtain ⟨alike',index,cells⟩ := ih inside'
      refine ⟨alike'.trans alike,index,?_⟩
      intro coords there marked
      refine cells coords ((inside_alike alike).mpr there) ?_
      have first : cell (lowerBlock game block).body_indices coords =
          if coords = block.lower then game.falling_body_index % 2^8 else cell game.body_indices coords :=
        cell_set under there _
      by_cases target : coords = block.lower
      · exact .inr (first.trans (if_pos target))
      · refine marked.imp (fun member => ?_) (fun index => (first.trans (if_neg target)).trans index)
        simpa [target] using member

-- Every block of the body has a layer below it, EMPTY or its own.
theorem can_go_lower (shaped : Shaped game) (falls : Falls game) (free : falling_body_can_go_lower game = true)
    (member : block ∈ game.falling_body) :
    Inside game.grid block.lower ∧ block.lower.z = block.z+1 ∧
      (cell game.grid block.lower = .EMPTY ∨ block.lower ∈ game.falling_body) := by
  have here := falls.inside block member
  have next : block.lower.z = block.z+1 := by
    show (block.z+1) % 2^32 = block.z+1
    have bound := here.2.2
    have small := shaped.small.2.2
    omega
  have lowers := List.all_eq_true.mp free block member
  rcases Bool.or_eq_true_iff.mp lowers with moves | mine
  · unfold Grid3.can_move_lower at moves
    split at moves
    · cases moves
    · rename_i above
      have inside : Inside game.grid block.lower := by
        refine ⟨here.1,here.2.1,?_⟩
        rw [next]
        omega
      refine ⟨inside,next,.inl ?_⟩
      have value : game.grid.value block.x block.y (block.z+1) = game.grid.default_value := of_decide_eq_true moves
      unfold cell
      rw [next]
      exact value.trans shaped.empty
  · have own : block.lower ∈ game.falling_body := by simpa [Block_Coords.lower] using mine
    exact ⟨falls.inside _ own,next,.inr own⟩

theorem lower_falls (sorter : Layer_Sort) (shaped : Shaped game) (falls : Falls game) (narrow : Narrow game.falling_body)
    (free : falling_body_can_go_lower game = true) :
    Shaped (move_falling_body_lower sorter game) ∧ Falls (move_falling_body_lower sorter game) ∧
      SameSolid game (move_falling_body_lower sorter game) ∧ Narrow (move_falling_body_lower sorter game).falling_body := by
  have order := sorter.perm game.falling_body
  have member : ∀ block, block ∈ sorter.sort game.falling_body ↔ block ∈ game.falling_body := fun _ => order.mem_iff
  have targets : ∀ block ∈ sorter.sort game.falling_body, Inside game.grid block.lower ∧ block.lower.z = block.z+1 ∧
      (cell game.grid block.lower = .EMPTY ∨ block.lower ∈ game.falling_body) :=
    fun block present => can_go_lower shaped falls free ((member block).mp present)
  obtain ⟨alike,cells⟩ := lower_cells (sorter.sorted game.falling_body) (fun block present =>
    ⟨falls.inside block ((member block).mp present),(targets block present).1,(targets block present).2.1⟩) shaped.empty
  have targets' : ∀ block ∈ sorter.sort game.falling_body, Inside game.body_indices block.lower :=
    fun block present => shaped.indices.mpr (targets block present).1
  obtain ⟨alike',index,indices⟩ := lower_indices targets'
  have lowered : ∀ coords ∈ (sorter.sort game.falling_body).map Block_Coords.lower,
      ∃ block ∈ game.falling_body, block.lower = coords ∧ Inside game.grid coords ∧ coords.x = block.x ∧ coords.y = block.y ∧
        coords.z = block.z+1 ∧ (cell game.grid coords = .EMPTY ∨ coords ∈ game.falling_body) := by
    intro coords present
    obtain ⟨block,source,rfl⟩ := List.mem_map.mp present
    obtain ⟨inside,next,vacant⟩ := targets block source
    exact ⟨block,(member block).mp source,rfl,inside,rfl,rfl,next,vacant⟩
  refine ⟨⟨?_,?_,?_,alike.2.2.2.trans shaped.empty,?_⟩,⟨?_,?_,?_,?_⟩,⟨alike,?_⟩,?_⟩
  · exact alike'.1.trans (shaped.rows.trans alike.1.symm)
  · exact alike'.2.1.trans (shaped.cols.trans alike.2.1.symm)
  · exact alike'.2.2.1.trans (shaped.layers.trans alike.2.2.1.symm)
  · unfold move_falling_body_lower
    dsimp only
    rw [alike.1,alike.2.1,alike.2.2.1]
    exact shaped.small
  · refine (order.nodup_iff.mpr falls.nodup).map_on ?_
    intro a left b right same
    have zs := (targets a left).2.1
    have zs' := (targets b right).2.1
    have x : a.lower.x = b.lower.x := by rw [same]
    have y : a.lower.y = b.lower.y := by rw [same]
    have z : a.lower.z = b.lower.z := by rw [same]
    change a.x = b.x at x
    change a.y = b.y at y
    have equal : a.z = b.z := by omega
    cases a
    cases b
    simp_all
  · intro coords present
    obtain ⟨_,_,_,inside,_⟩ := lowered coords present
    exact (inside_alike alike).mpr inside
  · intro coords here
    have here' := (inside_alike alike).mp here
    show cell ((sorter.sort game.falling_body).foldl lowerBlock game).grid coords = .FALLING ↔
      coords ∈ (sorter.sort game.falling_body).map Block_Coords.lower
    rw [cells coords here']
    by_cases fallen : coords ∈ (sorter.sort game.falling_body).map Block_Coords.lower
    · simp only [fallen,if_true]
    · rw [if_neg fallen]
      simp only [fallen,iff_false]
      split
      · simp
      · rename_i off
        exact fun marked => off ((member coords).mpr ((falls.falling coords here').mp marked))
  · intro coords present
    obtain ⟨_,_,_,inside,_⟩ := lowered coords present
    show cell ((sorter.sort game.falling_body).foldl lowerBlock game).body_indices coords =
      ((sorter.sort game.falling_body).foldl lowerBlock game).falling_body_index % 2^8
    rw [index]
    exact indices coords (shaped.indices.mpr inside) (.inl present)
  · intro coords here
    show cell ((sorter.sort game.falling_body).foldl lowerBlock game).grid coords = .SOLID ↔ _
    rw [cells coords here]
    have own : coords ∈ game.falling_body → cell game.grid coords = .FALLING := (falls.falling coords here).mpr
    by_cases fallen : coords ∈ (sorter.sort game.falling_body).map Block_Coords.lower
    · rw [if_pos fallen]
      obtain ⟨_,_,_,_,_,_,_,vacant⟩ := lowered coords fallen
      rcases vacant with empty | mine
      · simp [empty]
      · simp [own mine]
    · rw [if_neg fallen]
      split
      · rename_i present
        simp [own ((member coords).mp present)]
      · exact Iff.rfl
  · intro p left q right
    obtain ⟨a,present,_,_,x,y,z,_⟩ := lowered p left
    obtain ⟨b,present',_,_,x',y',z',_⟩ := lowered q right
    obtain ⟨near,near',near''⟩ := narrow a present b present'
    exact ⟨by omega,by omega,by omega⟩

-- The coordinates of the bodies.
theorem bodies_small : ∀ body ∈ available_bodies, body.Nodup ∧ ∀ block ∈ body, block.x < 3 ∧ block.y < 2 ∧ block.z < 4 := by
  decide

theorem generate_lt (drawn : Nat) : generate drawn 0 available_bodies.length < available_bodies.length := by
  unfold generate
  rw [Nat.zero_add]
  exact Nat.mod_lt _ (by decide)

theorem body_member (known : index < available_bodies.length) : available_bodies.getD index [] ∈ available_bodies := by
  rw [List.getD_eq_getElem?_getD,List.getElem?_eq_getElem known]
  exact List.getElem_mem known

-- Large enough for the bodies.
def Roomy (g : Grid3 α) : Prop := 3 ≤ g.rows ∧ 2 ≤ g.cols ∧ 4 ≤ g.layers

theorem produce_falls (shaped : Shaped game) (roomy : Roomy game.grid) (known : game.next_falling_body_index < available_bodies.length)
    (vacant : ∀ block, Inside game.grid block → cell game.grid block ≠ .FALLING)
    (produced : produce_new_falling_body sorter drawn game = (after,true)) :
    Shaped after ∧ Falls after ∧ SameSolid game after ∧ Narrow after.falling_body := by
  unfold produce_new_falling_body at produced
  dsimp only at produced
  split at produced
  · rename_i clear
    have equal := congrArg Prod.fst produced
    subst equal
    obtain ⟨unique,small⟩ := bodies_small _ (body_member known)
    have order := sorter.perm (available_bodies.getD game.next_falling_body_index [])
    have small' : ∀ block ∈ sorter.sort (available_bodies.getD game.next_falling_body_index []),
        block.x < 3 ∧ block.y < 2 ∧ block.z < 4 := fun block present => small block (order.mem_iff.mp present)
    have inside : ∀ block ∈ sorter.sort (available_bodies.getD game.next_falling_body_index []), Inside game.grid block := by
      intro block present
      obtain ⟨x,y,z⟩ := small' block present
      exact ⟨Nat.lt_of_lt_of_le x roomy.1,Nat.lt_of_lt_of_le y roomy.2.1,Nat.lt_of_lt_of_le z roomy.2.2⟩
    have nodup := order.nodup_iff.mpr unique
    have shaped' : Shaped {game with next_falling_body_index := generate drawn 0 available_bodies.length} :=
      ⟨shaped.rows,shaped.cols,shaped.layers,shaped.empty,shaped.small⟩
    obtain ⟨placed,falls⟩ := place_falls shaped' nodup inside vacant game.next_falling_body_index
    refine ⟨⟨placed.rows,placed.cols,placed.layers,placed.empty,placed.small⟩,falls,
      ⟨(cells_set nodup inside Block_Type.FALLING).1,?_⟩,?_⟩
    · intro block here
      refine (iff_of_eq (congrArg (· = Block_Type.SOLID) ((cells_set nodup inside Block_Type.FALLING).2 block here))).trans ?_
      split
      · rename_i present
        have empty := of_decide_eq_true (List.all_eq_true.mp clear block present)
        simp [empty]
      · exact Iff.rfl
    · intro a left b right
      obtain ⟨x,y,z⟩ := small' a left
      exact ⟨by omega,by omega,by omega⟩
  · cases produced

theorem solidify_settled (shaped : Shaped game) (falls : Falls game) :
    Shaped (solidify game) ∧ Grid3.Alike (solidify game).grid game.grid ∧ ∀ block, Inside (solidify game).grid block → cell (solidify game).grid block ≠ .FALLING := by
  obtain ⟨alike,cells⟩ := cells_set falls.nodup falls.inside Block_Type.SOLID
  refine ⟨⟨shaped.rows.trans alike.1.symm,shaped.cols.trans alike.2.1.symm,shaped.layers.trans alike.2.2.1.symm,
    alike.2.2.2.trans shaped.empty,?_⟩,alike,?_⟩
  · unfold solidify
    dsimp only
    rw [alike.1,alike.2.1,alike.2.2.1]
    exact shaped.small
  · intro block here
    have here' := (inside_alike alike).mp here
    show cell (game.falling_body.foldl (setCell · .SOLID ·) game.grid) block ≠ .FALLING
    rw [cells block here']
    split
    · simp
    · rename_i off
      exact fun marked => off ((falls.falling block here').mp marked)

-- Whether a body is falling: between the produce that succeeded and solidify.
structure Play where
  game : Game
  falling : Bool

inductive Command where
  | produce (drawn : Nat)
  | rotate (axis : Rotation_Axis)
  | move (row_delta col_delta : Int)
  | lower
  | solidify
deriving DecidableEq, Repr

-- The order of tetris_main and update: a body is produced where none is falling,
-- everything else is done to a falling body.
def step (sorter : Layer_Sort) (s : Play) : Command → Option Play
  | .produce drawn =>
    if s.falling then none
    else match produce_new_falling_body sorter drawn s.game with
      | (game,true) => some ⟨game,true⟩
      | (_,false) => none
  | .rotate axis => if s.falling then some ⟨(try_rotating_falling_body sorter axis s.game).1,true⟩ else none
  | .move row_delta col_delta =>
    if s.falling then some ⟨(try_moving_falling_body row_delta col_delta s.game).1,true⟩ else none
  | .lower =>
    if s.falling && falling_body_can_go_lower s.game then some ⟨move_falling_body_lower sorter s.game,true⟩ else none
  | .solidify => if s.falling then some ⟨solidify s.game,false⟩ else none

def Step (sorter : Layer_Sort) (s : Play) (command : Command) (t : Play) : Prop := step sorter s command = some t

-- A rotation, a move or a produce that returns false changes nothing.
theorem rotate_refused (refused : (try_rotating_falling_body sorter axis game).2 = false) :
    (try_rotating_falling_body sorter axis game).1 = game := by
  unfold try_rotating_falling_body at refused ⊢
  split at refused
  · rfl
  · cases refused

theorem move_refused (refused : (try_moving_falling_body row_delta col_delta game).2 = false) :
    (try_moving_falling_body row_delta col_delta game).1 = game := by
  unfold try_moving_falling_body at refused ⊢
  split at refused
  · rfl
  · cases refused

theorem produce_refused (refused : (produce_new_falling_body sorter drawn game).2 = false) :
    (produce_new_falling_body sorter drawn game).1 =
      {game with next_falling_body_index := generate drawn 0 available_bodies.length} := by
  unfold produce_new_falling_body at refused ⊢
  dsimp only at refused ⊢
  split at refused
  · cases refused
  · rename_i occupied
    rw [if_neg occupied]

theorem lower_kept (blocks : List Block_Coords) (game : Game) :
    (blocks.foldl lowerBlock game).next_falling_body_index = game.next_falling_body_index := by
  induction blocks generalizing game with
  | nil => rfl
  | cons block rest ih => exact ih _

theorem rotate_kept : (try_rotating_falling_body sorter axis game).1.next_falling_body_index = game.next_falling_body_index := by
  unfold try_rotating_falling_body
  split <;> rfl

theorem move_kept : (try_moving_falling_body row_delta col_delta game).1.next_falling_body_index =
    game.next_falling_body_index := by
  unfold try_moving_falling_body
  split <;> rfl

theorem produce_next : (produce_new_falling_body sorter drawn game).1.next_falling_body_index =
    generate drawn 0 available_bodies.length := by
  unfold produce_new_falling_body
  dsimp only
  split <;> rfl

structure Playing (s : Play) : Prop where
  shaped : Shaped s.game
  roomy : Roomy s.game.grid
  known : s.game.next_falling_body_index < available_bodies.length
  body : s.falling = true → Falls s.game ∧ Narrow s.game.falling_body
  settled : s.falling = false → ∀ block, Inside s.game.grid block → cell s.game.grid block ≠ .FALLING

theorem Roomy.alike (roomy : Roomy g) (alike : Grid3.Alike h g) : Roomy h := by
  unfold Roomy
  rw [alike.1,alike.2.1,alike.2.2.1]
  exact roomy

theorem initial_playing (rows cols layers : UInt32) (drawn : Nat) (large : 3 ≤ rows.toNat ∧ 2 ≤ cols.toNat ∧ 4 ≤ layers.toNat) :
    Playing ⟨Game.new rows.toNat cols.toNat layers.toNat drawn,false⟩ := by
  refine ⟨⟨rfl,rfl,rfl,rfl,rows.toNat_lt,cols.toNat_lt,layers.toNat_lt⟩,large,generate_lt drawn,?_,?_⟩
  · intro falling
    cases falling
  · intro _ block here
    have empty : cell (Game.new rows.toNat cols.toNat layers.toNat drawn).grid block = .EMPTY := Grid3.new_value ..
    rw [empty]
    simp

-- What a step leaves of the invariant, given what its function does to a body.
theorem playing_falling (playing : Playing s) (shaped : Shaped after) (falls : Falls after)
    (same : SameSolid s.game after) (narrow : Narrow after.falling_body)
    (known : after.next_falling_body_index < available_bodies.length) : Playing ⟨after,true⟩ :=
  ⟨shaped,playing.roomy.alike same.1,known,fun _ => ⟨falls,narrow⟩,fun settled => (nomatch settled)⟩

theorem step_playing (playing : Playing s) (moved : step sorter s command = some t) :
    Playing t ∧ (command ≠ .solidify → SameSolid s.game t.game) := by
  cases command with
  | produce drawn =>
      simp only [step] at moved
      split at moved
      · cases moved
      · rename_i idle
        split at moved
        · rename_i after produced
          cases moved
          have next := congrArg (fun result => result.1.next_falling_body_index) produced
          obtain ⟨shaped,falls,same,narrow⟩ := produce_falls playing.shaped playing.roomy playing.known
            (playing.settled (by simpa using idle)) produced
          refine ⟨playing_falling playing shaped falls same narrow ?_,fun _ => same⟩
          rw [← next,produce_next]
          exact generate_lt drawn
        · cases moved
  | rotate axis =>
      simp only [step] at moved
      split at moved
      · rename_i falling
        cases moved
        obtain ⟨falls,narrow⟩ := playing.body falling
        have known : (try_rotating_falling_body sorter axis s.game).1.next_falling_body_index < available_bodies.length := by
          rw [rotate_kept]
          exact playing.known
        cases result : (try_rotating_falling_body sorter axis s.game).2 with
        | false =>
            have same := rotate_refused result
            simp only [same] at known ⊢
            exact ⟨⟨playing.shaped,playing.roomy,known,fun _ => ⟨falls,narrow⟩,fun settled => (nomatch settled)⟩,
              fun _ => ⟨Grid3.Alike.refl _,fun _ _ => Iff.rfl⟩⟩
        | true =>
            obtain ⟨shaped,falls',same,narrow'⟩ := rotate_falls playing.shaped falls narrow (Prod.ext rfl result)
            exact ⟨playing_falling playing shaped falls' same narrow' known,fun _ => same⟩
      · cases moved
  | move row_delta col_delta =>
      simp only [step] at moved
      split at moved
      · rename_i falling
        cases moved
        obtain ⟨falls,narrow⟩ := playing.body falling
        have known : (try_moving_falling_body row_delta col_delta s.game).1.next_falling_body_index < available_bodies.length := by
          rw [move_kept]
          exact playing.known
        cases result : (try_moving_falling_body row_delta col_delta s.game).2 with
        | false =>
            have same := move_refused result
            simp only [same] at known ⊢
            exact ⟨⟨playing.shaped,playing.roomy,known,fun _ => ⟨falls,narrow⟩,fun settled => (nomatch settled)⟩,
              fun _ => ⟨Grid3.Alike.refl _,fun _ _ => Iff.rfl⟩⟩
        | true =>
            obtain ⟨shaped,falls',same,narrow'⟩ := move_falls playing.shaped falls narrow (Prod.ext rfl result)
            exact ⟨playing_falling playing shaped falls' same narrow' known,fun _ => same⟩
      · cases moved
  | lower =>
      simp only [step] at moved
      split at moved
      · rename_i free
        cases moved
        obtain ⟨falling,lowers⟩ := Bool.and_eq_true_iff.mp free
        obtain ⟨falls,narrow⟩ := playing.body falling
        obtain ⟨shaped,falls',same,narrow'⟩ := lower_falls sorter playing.shaped falls narrow lowers
        refine ⟨playing_falling playing shaped falls' same narrow' ?_,fun _ => same⟩
        show ((sorter.sort s.game.falling_body).foldl lowerBlock s.game).next_falling_body_index < _
        rw [lower_kept]
        exact playing.known
      · cases moved
  | solidify =>
      simp only [step] at moved
      split at moved
      · rename_i falling
        cases moved
        obtain ⟨shaped,alike,vacant⟩ := solidify_settled playing.shaped (playing.body falling).1
        exact ⟨⟨shaped,playing.roomy.alike alike,playing.known,fun impossible => (nomatch impossible),fun _ => vacant⟩,
          fun impossible => absurd rfl impossible⟩
      · cases moved

-- What holds of a game between two steps, and of its next one.
structure Sound (sorter : Layer_Sort) (s : Play) : Prop where
  falls : s.falling = true → Falls s.game
  settled : s.falling = false → ∀ block, Inside s.game.grid block → cell s.game.grid block ≠ .FALLING
  solid : ∀ command t, Step sorter s command t → command ≠ .solidify → SameSolid s.game t.game
  rotation : ∀ axis, (try_rotating_falling_body sorter axis s.game).2 = false →
    (try_rotating_falling_body sorter axis s.game).1 = s.game
  movement : ∀ row_delta col_delta, (try_moving_falling_body row_delta col_delta s.game).2 = false →
    (try_moving_falling_body row_delta col_delta s.game).1 = s.game
  production : ∀ drawn, (produce_new_falling_body sorter drawn s.game).2 = false →
    (produce_new_falling_body sorter drawn s.game).1 =
      {s.game with next_falling_body_index := generate drawn 0 available_bodies.length}

theorem run_playing (playing : Playing s) (run : TransitionRuns.Run (Step sorter) (fun _ _ => True) s commands t) : Playing t :=
  run.keeps Playing (fun _ _ _ held _ moved => (step_playing held moved).1) playing

theorem falling_body_invariant (sorter : Layer_Sort) (rows cols layers : UInt32) (drawn : Nat)
    (large : 3 ≤ rows.toNat ∧ 2 ≤ cols.toNat ∧ 4 ≤ layers.toNat)
    (run : TransitionRuns.Run (Step sorter) (fun _ _ => True)
      ⟨Game.new rows.toNat cols.toNat layers.toNat drawn,false⟩ commands s) : Sound sorter s := by
  have playing := run_playing (initial_playing rows cols layers drawn large) run
  exact ⟨fun falling => (playing.body falling).1,playing.settled,fun _ _ moved => (step_playing playing moved).2,
    fun _ => rotate_refused,fun _ _ => move_refused,fun _ => produce_refused⟩

-- Sorting by insertion.
def insertionSorter : Layer_Sort :=
  ⟨List.insertionSort fun a b => b.z ≤ a.z,fun _ => List.perm_insertionSort _ _,
    fun blocks => by
      have : Std.Total fun a b : Block_Coords => b.z ≤ a.z := ⟨fun a b => Nat.le_total b.z a.z⟩
      have : IsTrans Block_Coords fun a b => b.z ≤ a.z := ⟨fun _ _ _ first second => Nat.le_trans second first⟩
      exact List.pairwise_insertionSort _ blocks⟩

theorem played_run (sorter : Layer_Sort) (s : Play) (commands : List Command) (observe : Play → Obs) (seen : Obs)
    (played : (TransitionRuns.follow (step sorter) (fun _ _ => true) s commands).map observe = some seen) :
    ∃ t, TransitionRuns.Run (Step sorter) (fun _ _ => True) s commands t ∧ observe t = seen := by
  obtain ⟨t,followed,same⟩ := Option.map_eq_some_iff.mp played
  exact ⟨t,TransitionRuns.follow_run _ _ (fun _ _ _ moved => moved) (fun _ _ _ => trivial) followed,same⟩

-- A bent tromino is turned, moved and lowered on the smallest board.
theorem falling_body_invariant_tromino :
    ∃ s, s.falling = true ∧ s.game.falling_body = [⟨2,0,2⟩,⟨1,0,2⟩,⟨1,0,1⟩] ∧ Sound insertionSorter s := by
  obtain ⟨s,run,seen⟩ := played_run insertionSorter ⟨Game.new (3 : UInt32).toNat (2 : UInt32).toNat (4 : UInt32).toNat 1,false⟩
    [.produce 0,.rotate .Y,.move 1 0,.lower] (fun s => (s.falling,s.game.falling_body))
    (true,[⟨2,0,2⟩,⟨1,0,2⟩,⟨1,0,1⟩]) (by decide +kernel)
  simp only [Prod.mk.injEq] at seen
  exact ⟨s,seen.1,seen.2,falling_body_invariant insertionSorter 3 2 4 1 (by decide) run⟩

-- Once it is solidified the body still lists its blocks, and they are SOLID.
theorem solidified_body_listed :
    ¬ ∀ (sorter : Layer_Sort) (rows cols layers : UInt32) (drawn : Nat) (commands : List Command) (s : Play),
      3 ≤ rows.toNat ∧ 2 ≤ cols.toNat ∧ 4 ≤ layers.toNat →
      TransitionRuns.Run (Step sorter) (fun _ _ => True)
        ⟨Game.new rows.toNat cols.toNat layers.toNat drawn,false⟩ commands s → Falls s.game := by
  intro all
  obtain ⟨s,run,seen⟩ := played_run insertionSorter ⟨Game.new (3 : UInt32).toNat (2 : UInt32).toNat (4 : UInt32).toNat 0,false⟩
    [.produce 0,.solidify] (fun s => (s.game.falling_body,s.game.grid.rows,s.game.grid.cols,s.game.grid.layers,
      cell s.game.grid ⟨0,0,0⟩)) ([⟨0,0,1⟩,⟨0,0,0⟩],3,2,4,.SOLID) (by decide)
  simp only [Prod.mk.injEq] at seen
  obtain ⟨listed,rows,cols,layers,solid⟩ := seen
  have falls := all insertionSorter 3 2 4 0 _ s (by decide) run
  have inside : Inside s.game.grid ⟨0,0,0⟩ := ⟨by rw [rows]; decide,by rw [cols]; decide,by rw [layers]; decide⟩
  have marked := (falls.falling ⟨0,0,0⟩ inside).mpr (by rw [listed]; simp)
  rw [solid] at marked
  cases marked

end Tetris
