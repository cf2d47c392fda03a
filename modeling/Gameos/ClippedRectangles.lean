import Mathlib.Data.List.Basic
import Mathlib.Data.List.Nodup
import Mathlib.Data.List.Range
import Mathlib.Tactic.Ring

-- gameos/gfx.hh: rectangles and scaled sprites, clipped to the screen.
namespace ClippedRectangles

def u32 (n : Nat) : Nat := n % 4294967296

structure Screen where
  width : Nat
  height : Nat
  width_fits : width < 4294967296
  height_fits : height < 4294967296

-- A command draw_rect has admitted.
structure RectCommand (screen : Screen) where
  x : Nat
  y : Nat
  w : Nat
  h : Nat
  w_fits : w < 4294967296
  h_fits : h < 4294967296
  x_inside : x < screen.width
  y_inside : y < screen.height

-- The extent of one direction: (x + w >= width()) ? (width() - x) : w
def clipped (limit first length : Nat) : Nat := if limit ≤ u32 (first + length) then limit - first else length

-- for (u32 i = first; i < limit; ++i)
def upTo (first limit : Nat) : List Nat := List.range' first (limit - first)

-- The calls of set_pixel, in order.
def innerDrawRect (screen : Screen) (command : RectCommand screen) : List (Nat × Nat) :=
  let clippedWidth := clipped screen.width command.x command.w
  let clippedHeight := clipped screen.height command.y command.h
  (upTo command.y (u32 (command.y + clippedHeight))).flatMap fun y =>
    (upTo command.x (u32 (command.x + clippedWidth))).map fun x => (x,y)

-- A texture with pixels, and a command draw_sprite_scaled has admitted.
structure SpriteCommand (screen : Screen) extends RectCommand screen where
  resWidth : Nat
  resHeight : Nat
  w_some : 0 < w
  h_some : 0 < h
  resWidth_some : 0 < resWidth
  resHeight_some : 0 < resHeight

-- The calls of set_pixel, each with the index its color is read from.
def innerDrawSprite (screen : Screen) (command : SpriteCommand screen) : List ((Nat × Nat) × Nat) :=
  let clippedWidth := clipped screen.width command.x command.w
  let clippedHeight := clipped screen.height command.y command.h
  (upTo 0 clippedHeight).flatMap fun py =>
    (upTo 0 clippedWidth).map fun px =>
      let sourceX := u32 (px * command.resWidth) / command.w
      let sourceY := u32 (py * command.resHeight) / command.h
      ((u32 (command.x + px),u32 (command.y + py)),u32 (u32 (sourceY * command.resWidth) + sourceX))

-- The assertions of set_pixel.
def InBounds (screen : Screen) (pixel : Nat × Nat) : Prop := pixel.1 < screen.width ∧ pixel.2 < screen.height

-- The part of a rectangle that is on the screen.
def Visible (screen : Screen) (command : RectCommand screen) (pixel : Nat × Nat) : Prop :=
  (command.x ≤ pixel.1 ∧ pixel.1 < command.x + command.w) ∧
    (command.y ≤ pixel.2 ∧ pixel.2 < command.y + command.h) ∧ InBounds screen pixel

structure Paints (screen : Screen) (command : RectCommand screen) (calls : List (Nat × Nat)) : Prop where
  asserted : ∀ pixel ∈ calls,InBounds screen pixel
  exact : ∀ pixel,pixel ∈ calls ↔ Visible screen command pixel
  once : calls.Nodup

structure PaintsSprite (screen : Screen) (command : SpriteCommand screen) : Prop where
  paints : Paints screen command.toRectCommand ((innerDrawSprite screen command).map (·.1))
  reads : ∀ call ∈ innerDrawSprite screen command,call.2 < command.resWidth * command.resHeight

-- The sums of a command are 32-bit numbers.
def RectCommand.Fits (command : RectCommand screen) : Prop :=
  command.x + command.w < 4294967296 ∧ command.y + command.h < 4294967296

theorem mem_upTo {first limit i : Nat} : i ∈ upTo first limit ↔ first ≤ i ∧ i < limit := by
  rw [upTo,List.mem_range'_1]
  omega

theorem upTo_nodup (first limit : Nat) : (upTo first limit).Nodup := List.nodup_range' _

-- Without wrapping the extent ends at the limit or before it.
theorem clipped_fits {limit first length : Nat} (inside : first < limit) (small : limit < 4294967296)
    (fits : first + length < 4294967296) : clipped limit first length = min length (limit - first) ∧
      u32 (first + clipped limit first length) = first + min length (limit - first) := by
  have whole : u32 (first + length) = first + length := Nat.mod_eq_of_lt fits
  have extent : clipped limit first length = min length (limit - first) := by
    rw [clipped,whole]
    split <;> omega
  rw [extent]
  exact ⟨rfl,Nat.mod_eq_of_lt (by omega)⟩

-- With it the length stays as it is, and its end comes before the start.
theorem clipped_wraps {limit first length : Nat} (inside : first < limit) (short : length < 4294967296)
    (small : limit < 4294967296) (wraps : 4294967296 ≤ first + length) :
    clipped limit first length = length ∧ u32 (first + length) < first ∧ limit < first + length := by
  have wrapped : u32 (first + length) = first + length - 4294967296 := by
    rw [u32,Nat.mod_eq_sub_mod wraps,Nat.mod_eq_of_lt (by omega)]
  refine ⟨?_,by omega,by omega⟩
  rw [clipped,if_neg (by omega)]

theorem grid_nodup {α : Type} (rows columns : List Nat) (place : Nat → Nat → α)
    (apart : ∀ y ∈ rows,∀ x ∈ columns,∀ y' ∈ rows,∀ x' ∈ columns,place y x = place y' x' → y = y' ∧ x = x')
    (rows_once : rows.Nodup) (columns_once : columns.Nodup) :
    (rows.flatMap fun y => columns.map (place y)).Nodup := by
  rw [List.nodup_flatMap]
  constructor
  · intro y row
    exact columns_once.map_on fun x column x' column' same => (apart y row x column y row x' column' same).2
  · refine rows_once.pairwise_of_forall_ne fun y row y' row' different => ?_
    refine List.disjoint_left.mpr fun pixel one two => ?_
    obtain ⟨x,column,rfl⟩ := List.mem_map.mp one
    obtain ⟨x',column',same⟩ := List.mem_map.mp two
    exact different (apart y row x column y' row' x' column' same.symm).1

theorem rect_paints (command : RectCommand screen) (fits : command.Fits) :
    Paints screen command (innerDrawRect screen command) := by
  obtain ⟨_,width⟩ := clipped_fits command.x_inside screen.width_fits fits.1
  obtain ⟨_,height⟩ := clipped_fits command.y_inside screen.height_fits fits.2
  have exact : ∀ pixel,pixel ∈ innerDrawRect screen command ↔ Visible screen command pixel := by
    rintro ⟨x,y⟩
    unfold innerDrawRect Visible InBounds
    dsimp only
    rw [width,height]
    simp only [List.mem_flatMap,List.mem_map,mem_upTo,Prod.mk.injEq]
    constructor
    · rintro ⟨_,row,_,column,rfl,rfl⟩
      omega
    · intro visible
      exact ⟨y,by omega,x,by omega,rfl,rfl⟩
  refine ⟨fun pixel member => ((exact pixel).mp member).2.2,exact,?_⟩
  refine grid_nodup _ _ _ (fun y _ x _ y' _ x' _ same => ?_) (upTo_nodup _ _) (upTo_nodup _ _)
  exact ⟨(Prod.mk.inj same).2,(Prod.mk.inj same).1⟩

theorem rect_empty (command : RectCommand screen) (none : command.w = 0 ∨ command.h = 0) :
    Paints screen command (innerDrawRect screen command) := by
  have x_inside := command.x_inside
  have y_inside := command.y_inside
  have width_fits := screen.width_fits
  have height_fits := screen.height_fits
  have nothing : innerDrawRect screen command = [] := by
    rw [List.eq_nil_iff_forall_not_mem]
    rintro ⟨x,y⟩ member
    unfold innerDrawRect at member
    simp only [List.mem_flatMap,List.mem_map,mem_upTo] at member
    obtain ⟨_,row,_,column,_⟩ := member
    rcases none with none | none
    · rw [none] at column
      have := (clipped_fits x_inside width_fits (show command.x + 0 < 4294967296 by omega)).2
      omega
    · rw [none] at row
      have := (clipped_fits y_inside height_fits (show command.y + 0 < 4294967296 by omega)).2
      omega
  rw [nothing]
  refine ⟨fun pixel member => (List.not_mem_nil member).elim,fun pixel => ⟨fun member => (List.not_mem_nil member).elim,?_⟩,
    List.nodup_nil⟩
  intro visible
  unfold Visible at visible
  omega

-- A sum that wraps leaves the rectangle unpainted.
theorem rect_wraps (command : RectCommand screen) (some : 0 < command.w ∧ 0 < command.h) (wraps : ¬ command.Fits) :
    ¬ Paints screen command (innerDrawRect screen command) := by
  intro paints
  have corner := (paints.exact (command.x,command.y)).mpr
    ⟨⟨Nat.le_refl _,by omega⟩,⟨Nat.le_refl _,by omega⟩,command.x_inside,command.y_inside⟩
  unfold innerDrawRect at corner
  simp only [List.mem_flatMap,List.mem_map,mem_upTo] at corner
  obtain ⟨_,row,_,column,_⟩ := corner
  unfold RectCommand.Fits at wraps
  by_cases wide : command.x + command.w < 4294967296
  · have high : 4294967296 ≤ command.y + command.h := by omega
    obtain ⟨kept,early,_⟩ := clipped_wraps command.y_inside command.h_fits screen.height_fits high
    rw [kept] at row
    omega
  · obtain ⟨kept,early,_⟩ := clipped_wraps command.x_inside command.w_fits screen.width_fits (Nat.le_of_not_lt wide)
    rw [kept] at column
    omega

theorem mem_sprite (command : SpriteCommand screen) (pixel : Nat × Nat) :
    pixel ∈ (innerDrawSprite screen command).map (·.1) ↔
      ∃ py < clipped screen.height command.y command.h,∃ px < clipped screen.width command.x command.w,
        (u32 (command.x + px),u32 (command.y + py)) = pixel := by
  unfold innerDrawSprite
  simp only [List.map_flatMap,List.map_map,List.mem_flatMap,List.mem_map,mem_upTo,Function.comp,Nat.zero_le,true_and]

-- Scaled coordinates stay in the texture, wrapped or not.
theorem scaled_lt {p length size : Nat} (inside : p < size) (some : 0 < length) : u32 (p * length) / size < length := by
  refine Nat.div_lt_of_lt_mul (Nat.lt_of_le_of_lt (Nat.mod_le _ _) ?_)
  exact Nat.mul_lt_mul_of_pos_right inside some

theorem clipped_le {limit first length : Nat} (inside : first < limit) (short : length < 4294967296)
    (small : limit < 4294967296) : clipped limit first length ≤ length := by
  by_cases fits : first + length < 4294967296
  · rw [(clipped_fits inside small fits).1]
    exact Nat.min_le_left _ _
  · rw [(clipped_wraps inside short small (Nat.le_of_not_lt fits)).1]

theorem sprite_reads (command : SpriteCommand screen) :
    ∀ call ∈ innerDrawSprite screen command,call.2 < command.resWidth * command.resHeight := by
  intro call member
  unfold innerDrawSprite at member
  simp only [List.mem_flatMap,List.mem_map,mem_upTo,Nat.zero_le,true_and] at member
  obtain ⟨py,row,px,column,rfl⟩ := member
  have low := Nat.lt_of_lt_of_le row (clipped_le command.y_inside command.h_fits screen.height_fits)
  have left := Nat.lt_of_lt_of_le column (clipped_le command.x_inside command.w_fits screen.width_fits)
  have x := scaled_lt left command.resWidth_some
  have y := scaled_lt low command.resHeight_some
  generalize u32 (px * command.resWidth) / command.w = sourceX at x ⊢
  generalize u32 (py * command.resHeight) / command.h = sourceY at y ⊢
  have rows : sourceY * command.resWidth + command.resWidth ≤ command.resWidth * command.resHeight := by
    calc sourceY * command.resWidth + command.resWidth = command.resWidth * (sourceY + 1) := by ring
      _ ≤ _ := Nat.mul_le_mul_left _ y
  have inner : u32 (sourceY * command.resWidth) ≤ sourceY * command.resWidth := Nat.mod_le _ _
  exact Nat.lt_of_le_of_lt (Nat.mod_le _ _) (by omega)

theorem sprite_paints (command : SpriteCommand screen) (fits : command.toRectCommand.Fits) :
    PaintsSprite screen command := by
  have width_fits := screen.width_fits
  have height_fits := screen.height_fits
  obtain ⟨width,_⟩ := clipped_fits command.x_inside screen.width_fits fits.1
  obtain ⟨height,_⟩ := clipped_fits command.y_inside screen.height_fits fits.2
  have x_inside := command.x_inside
  have y_inside := command.y_inside
  have place : ∀ px < min command.w (screen.width - command.x),u32 (command.x + px) = command.x + px :=
    fun px column => Nat.mod_eq_of_lt (by omega)
  have place' : ∀ py < min command.h (screen.height - command.y),u32 (command.y + py) = command.y + py :=
    fun py row => Nat.mod_eq_of_lt (by omega)
  have exact : ∀ pixel,pixel ∈ (innerDrawSprite screen command).map (·.1) ↔
      Visible screen command.toRectCommand pixel := by
    rintro ⟨x,y⟩
    rw [mem_sprite,width,height]
    unfold Visible InBounds
    dsimp only
    constructor
    · rintro ⟨py,row,px,column,same⟩
      rw [place px column,place' py row] at same
      obtain ⟨rfl,rfl⟩ := Prod.mk.inj same
      omega
    · intro visible
      refine ⟨y - command.y,by omega,x - command.x,by omega,?_⟩
      rw [place _ (by omega),place' _ (by omega),Nat.add_sub_cancel' (by omega),Nat.add_sub_cancel' (by omega)]
  refine ⟨⟨fun pixel member => ((exact pixel).mp member).2.2,exact,?_⟩,sprite_reads command⟩
  unfold innerDrawSprite
  dsimp only
  rw [List.map_flatMap,width,height]
  simp only [List.map_map]
  refine grid_nodup _ _ (fun py px => (u32 (command.x + px),u32 (command.y + py))) ?_ (upTo_nodup _ _) (upTo_nodup _ _)
  intro py row px column py' row' px' column' same
  rw [mem_upTo] at row column row' column'
  rw [place px column.2,place' py row.2,place px' column'.2,place' py' row'.2] at same
  obtain ⟨x,y⟩ := Prod.mk.inj same
  exact ⟨Nat.add_left_cancel y,Nat.add_left_cancel x⟩

-- A sum that wraps lets the sprite run into the edge, where set_pixel asserts.
theorem sprite_wraps (command : SpriteCommand screen) (wraps : ¬ command.toRectCommand.Fits) :
    ¬ PaintsSprite screen command := by
  intro sprite
  have x_inside := command.x_inside
  have y_inside := command.y_inside
  have width_fits := screen.width_fits
  have height_fits := screen.height_fits
  have w_some := command.w_some
  have h_some := command.h_some
  have some : ∀ limit first length,first < limit → 0 < length → 0 < clipped limit first length := by
    intro limit first length inside positive
    unfold clipped
    split <;> omega
  unfold RectCommand.Fits at wraps
  by_cases wide : command.x + command.w < 4294967296
  · obtain ⟨kept,_,far⟩ := clipped_wraps y_inside command.h_fits height_fits
      (show 4294967296 ≤ command.y + command.h by omega)
    have edge := (mem_sprite command (u32 (command.x + 0),u32 (command.y + (screen.height - command.y)))).mpr
      ⟨_,by rw [kept]; omega,0,some _ _ _ x_inside w_some,rfl⟩
    have inside := (sprite.paints.asserted _ edge).2
    have whole : u32 screen.height = screen.height := Nat.mod_eq_of_lt height_fits
    rw [Nat.add_sub_cancel' (by omega),whole] at inside
    exact Nat.lt_irrefl _ inside
  · obtain ⟨kept,_,far⟩ := clipped_wraps x_inside command.w_fits width_fits (Nat.le_of_not_lt wide)
    have edge := (mem_sprite command (u32 (command.x + (screen.width - command.x)),u32 (command.y + 0))).mpr
      ⟨0,some _ _ _ y_inside h_some,_,by rw [kept]; omega,rfl⟩
    have inside := (sprite.paints.asserted _ edge).1
    have whole : u32 screen.width = screen.width := Nat.mod_eq_of_lt width_fits
    rw [Nat.add_sub_cancel' (by omega),whole] at inside
    exact Nat.lt_irrefl _ inside

-- Rectangles and sprites are painted as they should exactly where their sums fit
-- 32 bits, or the rectangle is empty.
theorem clipping_exact (screen : Screen) (command : RectCommand screen) (sprite : SpriteCommand screen) :
    (Paints screen command (innerDrawRect screen command) ↔ command.w = 0 ∨ command.h = 0 ∨ command.Fits) ∧
    (PaintsSprite screen sprite ↔ sprite.toRectCommand.Fits) := by
  refine ⟨⟨fun paints => ?_,?_⟩,⟨fun painted => ?_,sprite_paints sprite⟩⟩
  · by_cases fits : command.Fits
    · exact .inr (.inr fits)
    · by_cases some : 0 < command.w ∧ 0 < command.h
      · exact (rect_wraps command some fits paints).elim
      · omega
  · rintro (none | none | fits)
    · exact rect_empty command (.inl none)
    · exact rect_empty command (.inr none)
    · exact rect_paints command fits
  · by_cases fits : sprite.toRectCommand.Fits
    · exact fits
    · exact (sprite_wraps sprite fits painted).elim

def smallScreen : Screen := ⟨2,1,by decide,by decide⟩

-- From the second pixel of the row to far beyond its end.
def wideRect : RectCommand smallScreen := ⟨1,0,4294967295,1,by decide,by decide,by decide,by decide⟩

-- A sprite of one texel, scaled as far.
def wideSprite : SpriteCommand smallScreen := ⟨wideRect,1,1,by decide,by decide,by decide,by decide⟩

theorem wide_rect_unpainted : innerDrawRect smallScreen wideRect = [] ∧ Visible smallScreen wideRect (1,0) ∧
    ¬ Paints smallScreen wideRect (innerDrawRect smallScreen wideRect) ∧ ¬ PaintsSprite smallScreen wideSprite := by
  have nothing : innerDrawRect smallScreen wideRect = [] := by decide
  have visible : Visible smallScreen wideRect (1,0) := by
    unfold Visible InBounds
    decide
  refine ⟨nothing,visible,fun paints => ?_,sprite_wraps wideSprite ?_⟩
  · have member := (paints.exact (1,0)).mpr visible
    rw [nothing] at member
    exact List.not_mem_nil member
  · unfold RectCommand.Fits
    decide

end ClippedRectangles
