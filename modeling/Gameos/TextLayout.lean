import Gameos.ClippedRectangles
import Gameos.TextGrid
import Mathlib.Data.List.TakeWhile

-- gameos/gfx.hh: text glyph by glyph, and the boxes measured for it.
namespace TextLayout
open ClippedRectangles TextGrid

def glyphWidth : Nat := 8
def glyphHeight : Nat := 16
def glyphCount : Nat := 128
def newline : UInt8 := 10

section Drawing
variable {γ : Type} (screen : Screen) (font : Nat → Nat → UInt8) (fg bg : γ)

def shade (c : UInt8) (row col : Nat) : γ := if (font c.toNat row).toNat &&& (0b10000000 >>> col) ≠ 0 then fg else bg

-- The calls of set_pixel for one glyph, each with its color.
def glyphPixels (x y : Nat) (c : UInt8) : List ((Nat × Nat) × γ) :=
  ((List.range glyphHeight).takeWhile fun row => u32 (y + row) < screen.height).flatMap fun row =>
    ((List.range glyphWidth).takeWhile fun col => u32 (x + col) < screen.width).map fun col =>
      ((u32 (x + col),u32 (y + row)),shade font fg bg c row col)

-- none where Static_Array asserts "index out of bounds".
def innerDrawChar (x y : Nat) (c : UInt8) : Option (List ((Nat × Nat) × γ)) :=
  if glyphCount ≤ c.toNat then none else some (glyphPixels screen font fg bg x y c)

def textLoop (x : Nat) : List UInt8 → Nat → Nat → Option (List ((Nat × Nat) × γ))
  | [],_,_ => some []
  | c :: rest,cx,cy =>
    if c = newline then textLoop x rest x (u32 (cy + glyphHeight))
    else
      let full := screen.width < u32 (cx + glyphWidth)
      let gx := if full then x else cx
      let gy := if full then u32 (cy + glyphHeight) else cy
      if screen.height < u32 (gy + glyphHeight) then some []
      else do
        let glyph ← innerDrawChar screen font fg bg gx gy c
        let later ← textLoop x rest (u32 (gx + glyphWidth)) gy
        return glyph ++ later

def innerDrawText (x y : Nat) (text : List UInt8) : Option (List ((Nat × Nat) × γ)) := textLoop screen font fg bg x text x y

end Drawing

def measureLoop : List UInt8 → Nat → Nat → Nat → Nat × Nat
  | [],lineWidth,maxLineWidth,lineCount =>
    (u32 (max maxLineWidth lineWidth * glyphWidth),u32 (lineCount * glyphHeight))
  | c :: rest,lineWidth,maxLineWidth,lineCount =>
    if c = newline then measureLoop rest 0 (max maxLineWidth lineWidth) (u32 (lineCount + 1))
    else measureLoop rest (u32 (lineWidth + 1)) maxLineWidth lineCount

def measureText (text : List UInt8) : Nat × Nat := measureLoop text 0 0 1

-- One direction of a nine-patch, with the splits that draw_nine_patch_text has checked.
structure Side where
  source : Nat
  split1 : Nat
  split2 : Nat
  ordered : split1 ≤ split2 ∧ split2 ≤ source
  small : source < 4294967296

def Side.measure (side : Side) (text margin : Nat) : Nat :=
  u32 (u32 (u32 (text + side.split1) + u32 (side.source - side.split2)) + u32 (margin * 2))

def measureNinePatchText (across down : Side) (margin : Nat) (text : List UInt8) : Nat × Nat :=
  (across.measure (measureText text).1 margin,down.measure (measureText text).2 margin)

-- Where draw_ui starts the text of a nine-patch at x.
def Side.textStart (side : Side) (x margin : Nat) : Nat := u32 (u32 (x + side.split1) + margin)

section Layout
variable (screen : Screen)

def columnsFrom (x : Nat) : Nat := (screen.width - x) / glyphWidth

-- The loop stops at the first glyph that would reach below the screen.
def visible (x y : Nat) (text : List UInt8) : List (UInt8 × (Nat × Nat)) :=
  (layout (columnsFrom screen x) 0 (text.splitOn newline)).takeWhile fun cell => y + glyphHeight * (cell.2.2 + 1) ≤ screen.height

-- No position on the way wraps.
structure Unwrapped (x y : Nat) (text : List UInt8) : Prop where
  width : screen.width + glyphWidth < 4294967296
  left : x + 2 * glyphWidth < 4294967296
  bottom : y + glyphHeight * totalRows (columnsFrom screen x) (text.splitOn newline) < 4294967296

-- The pixels of some cells, with the first at x and y.
structure Paints {γ : Type} (font : Nat → Nat → UInt8) (fg bg : γ) (x y : Nat) (cells : List (UInt8 × (Nat × Nat)))
    (pixels : List ((Nat × Nat) × γ)) : Prop where
  exact : ∀ pixel,pixel ∈ pixels ↔ ∃ cell ∈ cells,∃ col < glyphWidth,∃ row < glyphHeight,
    pixel = ((x + glyphWidth * cell.2.1 + col,y + glyphHeight * cell.2.2 + row),shade font fg bg cell.1 row col) ∧ InBounds screen pixel.1
  once : (pixels.map Prod.fst).Nodup

end Layout

section Glyphs
variable {γ : Type} {screen : Screen} {font : Nat → Nat → UInt8} {fg bg : γ} {x y : Nat} {c : UInt8}

theorem takeWhile_range {p : Nat → Bool} (short : k ≤ n) (before : ∀ i < k,p i = true) (stop : k = n ∨ p k = false) :
    (List.range n).takeWhile p = List.range k := by
  obtain ⟨more,rfl⟩ := Nat.exists_eq_add_of_le short
  rw [List.range_add,List.takeWhile_append_of_pos fun i member => before i (List.mem_range.mp member)]
  cases more with
  | zero => rw [List.range_zero,List.map_nil,List.takeWhile_nil,List.append_nil]
  | succ more =>
      have fails : p (k + 0) = false := by
        rcases stop with same | fails
        · omega
        · exact fails
      rw [List.range_succ_eq_map,List.map_cons,List.takeWhile_cons_of_neg (by rw [fails]; exact Bool.false_ne_true),List.append_nil]

-- The loops break where the screen ends.
theorem takeWhile_below (limit first n : Nat) (fits : first + n ≤ 4294967296) :
    ((List.range n).takeWhile fun i => decide (u32 (first + i) < limit)) = List.range (min n (limit - first)) := by
  have whole : ∀ i < n,u32 (first + i) = first + i := fun i inside => Nat.mod_eq_of_lt (by omega)
  refine takeWhile_range (Nat.min_le_left _ _) (fun i inside => ?_) ?_
  · rw [decide_eq_true_iff,whole i (by omega)]
    omega
  · by_cases all : min n (limit - first) = n
    · exact .inl all
    · right
      rw [decide_eq_false_iff_not,whole _ (by omega)]
      omega

theorem glyphPixels_grid (right : x + glyphWidth ≤ 4294967296) (bottom : y + glyphHeight ≤ 4294967296) (c : UInt8) :
    glyphPixels screen font fg bg x y c = (List.range (min glyphHeight (screen.height - y))).flatMap fun row =>
      (List.range (min glyphWidth (screen.width - x))).map fun col => ((x + col,y + row),shade font fg bg c row col) := by
  unfold glyphPixels
  rw [takeWhile_below _ _ _ right,takeWhile_below _ _ _ bottom]
  refine List.flatMap_congr fun row high => List.map_congr_left fun col wide => ?_
  have high := List.mem_range.mp high
  have wide := List.mem_range.mp wide
  have across : u32 (x + col) = x + col := Nat.mod_eq_of_lt (by omega)
  have down : u32 (y + row) = y + row := Nat.mod_eq_of_lt (by omega)
  rw [across,down]

theorem glyph_exact (right : x + glyphWidth ≤ 4294967296) (bottom : y + glyphHeight ≤ 4294967296) (pixel : (Nat × Nat) × γ) :
    pixel ∈ glyphPixels screen font fg bg x y c ↔ ∃ col < glyphWidth,∃ row < glyphHeight,
      pixel = ((x + col,y + row),shade font fg bg c row col) ∧ InBounds screen pixel.1 := by
  rw [glyphPixels_grid right bottom]
  simp only [List.mem_flatMap,List.mem_map,List.mem_range]
  unfold InBounds
  constructor
  · rintro ⟨row,high,col,wide,rfl⟩
    exact ⟨col,by omega,row,by omega,rfl,by dsimp only; omega,by dsimp only; omega⟩
  · rintro ⟨col,wide,row,high,rfl,inside⟩
    dsimp only at inside
    exact ⟨row,by omega,col,by omega,rfl⟩

theorem glyph_once (right : x + glyphWidth ≤ 4294967296) (bottom : y + glyphHeight ≤ 4294967296) (c : UInt8) :
    ((glyphPixels screen font fg bg x y c).map Prod.fst).Nodup := by
  rw [glyphPixels_grid right bottom,List.map_flatMap]
  simp only [List.map_map]
  refine grid_nodup _ _ (fun row col => (x + col,y + row)) (fun row _ col _ row' _ col' _ same => ?_) List.nodup_range List.nodup_range
  rw [Prod.mk.injEq] at same
  omega

-- Cells in reading order do not overlap.
theorem cells_paint {cells : List (UInt8 × (Nat × Nat))} (ordered : cells.Pairwise fun a b => Before a.2 b.2)
    (right : ∀ cell ∈ cells,x + glyphWidth * cell.2.1 + glyphWidth ≤ 4294967296)
    (bottom : ∀ cell ∈ cells,y + glyphHeight * cell.2.2 + glyphHeight ≤ 4294967296) :
    Paints screen font fg bg x y cells (cells.flatMap fun cell =>
      glyphPixels screen font fg bg (x + glyphWidth * cell.2.1) (y + glyphHeight * cell.2.2) cell.1) := by
  constructor
  · intro pixel
    rw [List.mem_flatMap]
    refine exists_congr fun cell => and_congr_right fun here => ?_
    exact glyph_exact (right cell here) (bottom cell here) pixel
  · rw [List.map_flatMap,List.nodup_flatMap]
    refine ⟨fun cell here => glyph_once (right cell here) (bottom cell here) cell.1,?_⟩
    refine ordered.imp_of_mem fun {a b} one two before => List.disjoint_left.mpr fun place mine other => ?_
    obtain ⟨pixel,drawn,rfl⟩ := List.mem_map.mp mine
    obtain ⟨pixel',drawn',same⟩ := List.mem_map.mp other
    obtain ⟨col,wide,row,high,here,_⟩ := (glyph_exact (right a one) (bottom a one) pixel).mp drawn
    obtain ⟨col',wide',row',high',there,_⟩ := (glyph_exact (right b two) (bottom b two) pixel').mp drawn'
    rw [here,there,Prod.mk.injEq] at same
    unfold Before at before
    simp only [glyphWidth,glyphHeight] at *
    omega

end Glyphs

section Text
variable {γ : Type} {screen : Screen} {font : Nat → Nat → UInt8} {fg bg : γ} {x y : Nat} {text : List UInt8} {p : Nat × Nat}

theorem column_full {across : Nat} : screen.width < x + glyphWidth * across + glyphWidth ↔ columnsFrom screen x ≤ across := by
  unfold columnsFrom
  simp only [glyphWidth]
  omega

theorem columns_fit (screen : Screen) (x : Nat) : x + glyphWidth * max 1 (columnsFrom screen x) ≤ max screen.width (x + glyphWidth) := by
  unfold columnsFrom
  simp only [glyphWidth]
  omega

-- The glyphs of some cells, unless a character has none.
def drawGlyphs (screen : Screen) (font : Nat → Nat → UInt8) (fg bg : γ) (x y : Nat) (cells : List (UInt8 × (Nat × Nat))) :
    Option (List ((Nat × Nat) × γ)) :=
  if ∀ cell ∈ cells,cell.1.toNat < glyphCount then
    some (cells.flatMap fun cell => glyphPixels screen font fg bg (x + glyphWidth * cell.2.1) (y + glyphHeight * cell.2.2) cell.1)
  else none

theorem drawGlyphs_cons (cell : UInt8 × (Nat × Nat)) (rest : List (UInt8 × (Nat × Nat))) :
    drawGlyphs screen font fg bg x y (cell :: rest) = do
      let glyph ← innerDrawChar screen font fg bg (x + glyphWidth * cell.2.1) (y + glyphHeight * cell.2.2) cell.1
      let later ← drawGlyphs screen font fg bg x y rest
      return glyph ++ later := by
  unfold drawGlyphs innerDrawChar
  simp only [List.forall_mem_cons]
  by_cases missing : glyphCount ≤ cell.1.toNat
  · rw [if_neg fun all => absurd all.1 (Nat.not_lt.mpr missing),if_pos missing]
    rfl
  · rw [if_neg missing]
    have present := Nat.lt_of_not_le missing
    split
    · rename_i all
      rw [if_pos all.2]
      rfl
    · rename_i some
      rw [if_neg fun rest => some ⟨present,rest⟩]
      rfl

theorem drawGlyphs_fails {cells : List (UInt8 × (Nat × Nat))} :
    drawGlyphs screen font fg bg x y cells = none ↔ ∃ cell ∈ cells,glyphCount ≤ cell.1.toNat := by
  unfold drawGlyphs
  split
  · rename_i all
    refine ⟨fun impossible => absurd impossible (Option.some_ne_none _),fun ⟨cell,here,missing⟩ => ?_⟩
    exact absurd (all cell here) (Nat.not_lt.mpr missing)
  · rename_i some
    refine ⟨fun _ => ?_,fun _ => rfl⟩
    obtain ⟨cell,here⟩ := Classical.not_forall.mp some
    obtain ⟨member,missing⟩ := Classical.not_imp.mp here
    exact ⟨cell,member,Nat.le_of_not_lt missing⟩

theorem drawGlyphs_drawn {cells : List (UInt8 × (Nat × Nat))} {pixels : List ((Nat × Nat) × γ)}
    (drawn : drawGlyphs screen font fg bg x y cells = some pixels) :
    pixels = cells.flatMap fun cell =>
      glyphPixels screen font fg bg (x + glyphWidth * cell.2.1) (y + glyphHeight * cell.2.2) cell.1 := by
  unfold drawGlyphs at drawn
  split at drawn
  · exact (Option.some.inj drawn).symm
  · exact absurd drawn.symm (Option.some_ne_none _)

-- The loop draws nothing after the first cell that is too low.
def drawCells (screen : Screen) (font : Nat → Nat → UInt8) (fg bg : γ) (x y : Nat) (cells : List (UInt8 × (Nat × Nat))) :
    Option (List ((Nat × Nat) × γ)) :=
  drawGlyphs screen font fg bg x y (cells.takeWhile fun cell => y + glyphHeight * (cell.2.2 + 1) ≤ screen.height)

theorem drawCells_low {cell : UInt8 × (Nat × Nat)} (low : screen.height < y + glyphHeight * (cell.2.2 + 1)) (rest : List (UInt8 × (Nat × Nat))) :
    drawCells screen font fg bg x y (cell :: rest) = some [] := by
  unfold drawCells
  rw [List.takeWhile_cons_of_neg (by rw [decide_eq_true_iff]; exact Nat.not_le.mpr low)]
  exact if_pos fun cell here => absurd here List.not_mem_nil

theorem drawCells_cons {cell : UInt8 × (Nat × Nat)} (high : y + glyphHeight * (cell.2.2 + 1) ≤ screen.height) (rest : List (UInt8 × (Nat × Nat))) :
    drawCells screen font fg bg x y (cell :: rest) = do
      let glyph ← innerDrawChar screen font fg bg (x + glyphWidth * cell.2.1) (y + glyphHeight * cell.2.2) cell.1
      let later ← drawCells screen font fg bg x y rest
      return glyph ++ later := by
  unfold drawCells
  rw [List.takeWhile_cons_of_pos (by rw [decide_eq_true_iff]; exact high)]
  exact drawGlyphs_cons ..

-- One cell further, where that does not wrap.
theorem next_cell {first size k : Nat} (fits : first + size * (k + 1) < 4294967296) :
    u32 (first + size * k + size) = first + size * (k + 1) := by
  rw [Nat.mul_succ,← Nat.add_assoc] at fits ⊢
  exact Nat.mod_eq_of_lt fits

-- Where a glyph of the loop starts: in the next line when the row is full.
theorem glyph_start (screen : Screen) (width : screen.width + glyphWidth < 4294967296) (left : x + 2 * glyphWidth < 4294967296)
    (across : p.1 ≤ max 1 (columnsFrom screen x)) (bottom : y + glyphHeight * (place (columnsFrom screen x) p).2 < 4294967296) :
    (if screen.width < u32 (x + glyphWidth * p.1 + glyphWidth) then x else x + glyphWidth * p.1) =
        x + glyphWidth * (place (columnsFrom screen x) p).1 ∧
      (if screen.width < u32 (x + glyphWidth * p.1 + glyphWidth) then u32 (y + glyphHeight * p.2 + glyphHeight)
        else y + glyphHeight * p.2) = y + glyphHeight * (place (columnsFrom screen x) p).2 := by
  have columns := columns_fit screen x
  have whole : u32 (x + glyphWidth * p.1 + glyphWidth) = x + glyphWidth * p.1 + glyphWidth := by
    refine Nat.mod_eq_of_lt ?_
    simp only [glyphWidth] at *
    omega
  rw [whole]
  unfold place at *
  by_cases full : columnsFrom screen x ≤ p.1
  · have past := column_full.mpr full
    rw [if_pos full] at bottom ⊢
    rw [if_pos past,if_pos past]
    exact ⟨rfl,next_cell bottom⟩
  · have within := mt column_full.mp full
    rw [if_neg full,if_neg within,if_neg within]
    exact ⟨rfl,rfl⟩

-- A character of the loop.
theorem textLoop_grid (screen : Screen) (font : Nat → Nat → UInt8) (fg bg : γ) (x y : Nat) (width : screen.width + glyphWidth < 4294967296)
    (left : x + 2 * glyphWidth < 4294967296) (text : List UInt8) (p : Nat × Nat) (across : p.1 ≤ max 1 (columnsFrom screen x))
    (bottom : y + glyphHeight * ((ends newline (columnsFrom screen x) text p).2 + 1) < 4294967296) :
    textLoop screen font fg bg x text (x + glyphWidth * p.1) (y + glyphHeight * p.2) =
      drawCells screen font fg bg x y (cells newline (columnsFrom screen x) text p) := by
  induction text generalizing p with
  | nil => rfl
  | cons c text ih =>
      have ahead := ends_ahead newline (columnsFrom screen x) text (next newline (columnsFrom screen x) c p)
      unfold textLoop cells
      unfold ends at bottom
      rw [List.foldl_cons] at bottom
      by_cases newLine : c = newline
      · rw [if_pos newLine,if_pos newLine]
        rw [next_newline newLine] at ahead bottom ⊢
        have below : y + glyphHeight * (p.2 + 1) < 4294967296 := by
          unfold ends at ahead
          simp only [glyphHeight] at *
          omega
        rw [next_cell below]
        exact ih (0,p.2 + 1) (Nat.zero_le _) bottom
      · rw [if_neg newLine,if_neg newLine]
        have columns := columns_fit screen x
        rw [next_other newLine] at ahead bottom ⊢
        have started := place_within (columnsFrom screen x) p
        obtain ⟨gx,gy⟩ := glyph_start (x := x) (y := y) screen width left across (by
          unfold ends at ahead
          simp only [glyphHeight] at *
          omega)
        dsimp only
        rw [gx,gy]
        generalize place (columnsFrom screen x) p = q at *
        have low : y + glyphHeight * (q.2 + 1) < 4294967296 := by
          unfold ends at ahead
          simp only [glyphHeight] at *
          omega
        have right : x + glyphWidth * (q.1 + 1) < 4294967296 := by
          simp only [glyphWidth] at *
          omega
        rw [next_cell low,next_cell right]
        split
        · rename_i below
          exact (drawCells_low below _).symm
        · rename_i high
          rw [drawCells_cons (Nat.le_of_not_lt high),ih (q.1 + 1,q.2) started bottom]

theorem drawText_grid (unwrapped : Unwrapped screen x y text) :
    innerDrawText screen font fg bg x y text = drawGlyphs screen font fg bg x y (visible screen x y text) := by
  obtain ⟨same,last⟩ := cells_layout newline (columnsFrom screen x) 0 text
  have grid := textLoop_grid screen font fg bg x y unwrapped.width unwrapped.left text (0,0) (Nat.zero_le _) (by
    rw [last,Nat.zero_add]
    exact unwrapped.bottom)
  rw [same] at grid
  exact grid

-- The cells of a text, as the glyphs of a screen.
theorem visible_paints (unwrapped : Unwrapped screen x y text) : Paints screen font fg bg x y (visible screen x y text)
    ((visible screen x y text).flatMap fun cell =>
      glyphPixels screen font fg bg (x + glyphWidth * cell.2.1) (y + glyphHeight * cell.2.2) cell.1) := by
  obtain ⟨same,_⟩ := cells_layout newline (columnsFrom screen x) 0 text
  have width := unwrapped.width
  have left := unwrapped.left
  have columns := columns_fit screen x
  unfold visible
  rw [← same]
  refine cells_paint ((cells_ordered text (0,0)).sublist (List.takeWhile_sublist _)) (fun cell here => ?_) fun cell here => ?_
  · have within := cells_within text (0,0) cell ((List.takeWhile_sublist _).subset here)
    simp only [glyphWidth] at *
    omega
  · have high : y + glyphHeight * (cell.2.2 + 1) ≤ screen.height := by
      have shown := List.mem_takeWhile_imp here
      exact of_decide_eq_true shown
    have fits := screen.height_fits
    rw [Nat.mul_succ] at high
    omega

-- A text is the rows of its lines as far as they are on the screen, each pixel painted once,
-- and fails at a character of them that has no glyph.
theorem text_laid_out (screen : Screen) (font : Nat → Nat → UInt8) (fg bg : γ) (x y : Nat) (text : List UInt8)
    (unwrapped : Unwrapped screen x y text) :
    (innerDrawText screen font fg bg x y text = none ↔ ∃ cell ∈ visible screen x y text,glyphCount ≤ cell.1.toNat) ∧
      ∀ pixels,innerDrawText screen font fg bg x y text = some pixels →
        Paints screen font fg bg x y (visible screen x y text) pixels := by
  rw [drawText_grid unwrapped]
  refine ⟨drawGlyphs_fails,fun pixels result => ?_⟩
  rw [drawGlyphs_drawn result]
  exact visible_paints unwrapped

-- Two columns and a half: a line of three characters goes on in the second row, and the last row is below the screen.
theorem text_laid_out_narrow : ∃ pixels,
    innerDrawText ⟨22,40,by decide,by decide⟩ (fun _ _ => 170) true false 1 2 [65,66,67,10,68] = some pixels ∧
      Paints ⟨22,40,by decide,by decide⟩ (fun _ _ => 170) true false 1 2 [(65,(0,0)),(66,(1,0)),(67,(0,1))] pixels := by
  have shown : visible ⟨22,40,by decide,by decide⟩ 1 2 [65,66,67,10,68] = [(65,(0,0)),(66,(1,0)),(67,(0,1))] := by
    decide +kernel
  obtain ⟨fails,paints⟩ := text_laid_out ⟨22,40,by decide,by decide⟩ (fun _ _ => 170) true false 1 2 [65,66,67,10,68]
    ⟨by decide,by decide,by decide +kernel⟩
  rw [shown] at fails paints
  obtain ⟨pixels,drawn⟩ := Option.ne_none_iff_exists'.mp (mt fails.mp (by decide))
  exact ⟨pixels,drawn,paints pixels drawn⟩

end Text

section Measured
variable {text : List UInt8} {lines : List (List UInt8)}

def longest (lines : List (List UInt8)) : Nat := (lines.map List.length).foldr max 0

theorem longest_above (lines : List (List UInt8)) : ∀ line ∈ lines,line.length ≤ longest lines := by
  induction lines with
  | nil => exact fun line here => absurd here List.not_mem_nil
  | cons first lines ih =>
      intro line here
      unfold longest at *
      rw [List.map_cons,List.foldr_cons]
      rcases List.mem_cons.mp here with rfl | here
      · exact Nat.le_max_left ..
      · exact Nat.le_trans (ih line here) (Nat.le_max_right ..)

-- The loop has a part of a line behind it, and the whole lines before.
theorem measureLoop_lines (text : List UInt8) (lineWidth maxLineWidth lineCount : Nat) (width : lineWidth + text.length < 268435456)
    (most : maxLineWidth < 268435456) (count : lineCount + text.length < 268435456) :
    ∃ line rest,text.splitOn newline = line :: rest ∧ measureLoop text lineWidth maxLineWidth lineCount =
      (glyphWidth * max (max maxLineWidth (lineWidth + line.length)) (longest rest),glyphHeight * (lineCount + rest.length)) := by
  induction text generalizing lineWidth maxLineWidth lineCount with
  | nil =>
      refine ⟨[],[],rfl,?_⟩
      unfold measureLoop longest
      rw [List.length_nil] at width count
      simp only [List.map_nil,List.foldr_nil,List.length_nil,Nat.add_zero,Nat.max_zero]
      rw [Nat.mul_comm _ glyphWidth,Nat.mul_comm _ glyphHeight]
      refine Prod.ext (Nat.mod_eq_of_lt ?_) (Nat.mod_eq_of_lt ?_)
      · simp only [glyphWidth]
        omega
      · simp only [glyphHeight]
        omega
  | cons c text ih =>
      rw [List.length_cons] at width count
      rw [splitOn_cons]
      unfold measureLoop
      by_cases newLine : c = newline
      · have another : u32 (lineCount + 1) = lineCount + 1 := Nat.mod_eq_of_lt (by omega)
        obtain ⟨line,rest,split,measured⟩ := ih 0 (max maxLineWidth lineWidth) (lineCount + 1) (by omega) (by omega) (by omega)
        rw [if_pos newLine,if_pos newLine,another,measured,split]
        refine ⟨[],line :: rest,rfl,?_⟩
        have whole : longest (line :: rest) = max line.length (longest rest) := rfl
        have length : lineCount + (line :: rest).length = lineCount + 1 + rest.length := by rw [List.length_cons]; omega
        rw [whole,length]
        simp only [List.length_nil,Nat.add_zero,Nat.zero_add,Nat.max_assoc]
      · have another : u32 (lineWidth + 1) = lineWidth + 1 := Nat.mod_eq_of_lt (by omega)
        obtain ⟨line,rest,split,measured⟩ := ih (lineWidth + 1) maxLineWidth lineCount (by omega) most (by omega)
        rw [if_neg newLine,if_neg newLine,another,measured,split]
        have length : lineWidth + (c :: line).length = lineWidth + 1 + line.length := by rw [List.length_cons]; omega
        exact ⟨c :: line,rest,rfl,by rw [length]⟩

theorem measureText_lines (text : List UInt8) (short : text.length + 1 < 268435456) : measureText text =
    (glyphWidth * longest (text.splitOn newline),glyphHeight * (text.splitOn newline).length) := by
  obtain ⟨line,rest,split,measured⟩ := measureLoop_lines text 0 0 1 (by omega) (by omega) (by omega)
  have whole : longest (line :: rest) = max line.length (longest rest) := rfl
  unfold measureText
  rw [measured,split,whole,List.length_cons,Nat.zero_add,Nat.zero_max,Nat.add_comm 1]

end Measured

-- The pixels of every character of a text, with none cut.
structure Shows {γ : Type} (font : Nat → Nat → UInt8) (fg bg : γ) (x y : Nat) (lines : List (List UInt8))
    (pixels : List ((Nat × Nat) × γ)) : Prop where
  exact : ∀ pixel,pixel ∈ pixels ↔ ∃ row letters k c,lines[row]? = some letters ∧ letters[k]? = some c ∧
    ∃ col < glyphWidth,∃ r < glyphHeight,
      pixel = ((x + glyphWidth * k + col,y + glyphHeight * row + r),shade font fg bg c r col)
  once : (pixels.map Prod.fst).Nodup

section Boxes
variable {γ : Type}

-- A text whose lines all fit on the screen.
theorem roomy_text (screen : Screen) (font : Nat → Nat → UInt8) (fg bg : γ) (x y : Nat) (text : List UInt8)
    (room : screen.width + 2 * glyphWidth < 4294967296)
    (right : x + glyphWidth * longest (text.splitOn newline) ≤ screen.width)
    (bottom : y + glyphHeight * (text.splitOn newline).length ≤ screen.height) :
    (innerDrawText screen font fg bg x y text = none ↔ ∃ c ∈ text,glyphCount ≤ c.toNat) ∧
      ∀ pixels,innerDrawText screen font fg bg x y text = some pixels → Shows font fg bg x y (text.splitOn newline) pixels := by
  obtain ⟨narrow,rowsSame⟩ := layout_fits (columnsFrom screen x) (text.splitOn newline) (fun line here => by
    have short := longest_above _ line here
    unfold columnsFrom
    simp only [glyphWidth] at *
    omega) 0
  have unwrapped : Unwrapped screen x y text := by
    refine ⟨by omega,by omega,?_⟩
    rw [rowsSame]
    exact Nat.lt_of_le_of_lt bottom screen.height_fits
  have all : visible screen x y text =
      ((text.splitOn newline).zipIdx 0).flatMap fun line => line.1.mapIdx fun k c => (c,(k,line.2)) := by
    unfold visible
    rw [narrow,List.takeWhile_eq_self_iff]
    intro cell here
    obtain ⟨line,at_row,_⟩ := mem_narrow.mp here
    obtain ⟨below,_⟩ := List.getElem?_eq_some_iff.mp at_row
    refine decide_eq_true (Nat.le_trans (Nat.add_le_add_left ?_ y) bottom)
    exact Nat.mul_le_mul_left _ below
  rw [drawText_grid unwrapped]
  constructor
  · rw [drawGlyphs_fails,all,← narrow,← (cells_layout newline (columnsFrom screen x) 0 text).1]
    refine (exists_cell (fun c => glyphCount ≤ c.toNat) text (0,0)).trans ?_
    refine exists_congr fun c => and_congr_right fun _ => ⟨fun here => here.2,fun missing => ⟨fun same => ?_,missing⟩⟩
    rw [same] at missing
    exact absurd missing (by decide)
  · intro pixels drawn
    have paints : Paints screen font fg bg x y (visible screen x y text) pixels := by
      rw [drawGlyphs_drawn drawn]
      exact visible_paints unwrapped
    rw [all] at paints
    refine ⟨fun pixel => (paints.exact pixel).trans ?_,paints.once⟩
    constructor
    · rintro ⟨cell,here,col,wide,r,high,same,_⟩
      obtain ⟨line,at_row,at_column⟩ := mem_narrow.mp here
      exact ⟨cell.2.2,line,cell.2.1,cell.1,at_row,at_column,col,wide,r,high,same⟩
    · rintro ⟨row,line,k,c,at_row,at_column,col,wide,r,high,same⟩
      refine ⟨(c,(k,row)),mem_narrow.mpr ⟨line,at_row,at_column⟩,col,wide,r,high,same,?_⟩
      obtain ⟨below,_⟩ := List.getElem?_eq_some_iff.mp at_row
      obtain ⟨before,_⟩ := List.getElem?_eq_some_iff.mp at_column
      have short := longest_above _ line (List.mem_of_getElem? at_row)
      rw [same]
      unfold InBounds
      simp only [glyphWidth,glyphHeight] at *
      omega

-- What a side of the box needs, in whole numbers.
def Side.needs (side : Side) (text margin : Nat) : Nat := text + side.split1 + (side.source - side.split2) + margin * 2

theorem Side.measure_needs {side : Side} {text margin : Nat} (fits : side.needs text margin < 4294967296) :
    side.measure text margin = side.needs text margin := by
  unfold measure needs u32 at *
  have whole := Nat.mod_eq_of_lt (show text + side.split1 < 4294967296 by omega)
  rw [whole]
  have right := Nat.mod_eq_of_lt (show side.source - side.split2 < 4294967296 by omega)
  rw [right]
  have both := Nat.mod_eq_of_lt (show text + side.split1 + (side.source - side.split2) < 4294967296 by omega)
  rw [both]
  have twice := Nat.mod_eq_of_lt (show margin * 2 < 4294967296 by omega)
  rw [twice,Nat.mod_eq_of_lt fits]

theorem Side.textStart_whole {side : Side} {text margin x limit : Nat} (inside : x + side.needs text margin ≤ limit)
    (small : limit < 4294967296) : side.textStart x margin = x + side.split1 + margin := by
  unfold textStart needs u32 at *
  have first := Nat.mod_eq_of_lt (show x + side.split1 < 4294967296 by omega)
  rw [first,Nat.mod_eq_of_lt (by omega)]

-- A box on the screen holds its text: the text is drawn in full inside the margins the box was measured with.
theorem text_boxed (screen : Screen) (font : Nat → Nat → UInt8) (fg bg : γ) (across down : Side) (x y margin : Nat) (text : List UInt8)
    (room : screen.width + 2 * glyphWidth < 4294967296) (short : text.length + 1 < 268435456)
    (right : x + across.needs (glyphWidth * longest (text.splitOn newline)) margin ≤ screen.width)
    (bottom : y + down.needs (glyphHeight * (text.splitOn newline).length) margin ≤ screen.height) :
    measureNinePatchText across down margin text = (across.needs (glyphWidth * longest (text.splitOn newline)) margin,
        down.needs (glyphHeight * (text.splitOn newline).length) margin) ∧
      (innerDrawText screen font fg bg (across.textStart x margin) (down.textStart y margin) text = none ↔
        ∃ c ∈ text,glyphCount ≤ c.toNat) ∧
      ∀ pixels,innerDrawText screen font fg bg (across.textStart x margin) (down.textStart y margin) text = some pixels →
        Shows font fg bg (x + across.split1 + margin) (y + down.split1 + margin) (text.splitOn newline) pixels ∧
        ∀ pixel ∈ pixels,
          (x + across.split1 + margin ≤ pixel.1.1 ∧
            pixel.1.1 + margin + (across.source - across.split2) < x + (measureNinePatchText across down margin text).1) ∧
          (y + down.split1 + margin ≤ pixel.1.2 ∧
            pixel.1.2 + margin + (down.source - down.split2) < y + (measureNinePatchText across down margin text).2) := by
  have wide := screen.width_fits
  have high := screen.height_fits
  have measured : measureNinePatchText across down margin text =
      (across.needs (glyphWidth * longest (text.splitOn newline)) margin,
        down.needs (glyphHeight * (text.splitOn newline).length) margin) := by
    unfold measureNinePatchText
    rw [measureText_lines text short]
    dsimp only
    rw [Side.measure_needs (by omega),Side.measure_needs (by omega)]
  rw [measured,Side.textStart_whole right wide,Side.textStart_whole bottom high]
  unfold Side.needs at right bottom ⊢
  obtain ⟨fails,shows⟩ := roomy_text screen font fg bg (x + across.split1 + margin) (y + down.split1 + margin) text room (by omega) (by omega)
  refine ⟨rfl,fails,fun pixels drawn => ⟨shows pixels drawn,fun pixel here => ?_⟩⟩
  obtain ⟨row,line,k,c,at_row,at_column,col,within,r,under,same⟩ := ((shows pixels drawn).exact pixel).mp here
  obtain ⟨below,_⟩ := List.getElem?_eq_some_iff.mp at_row
  obtain ⟨before,_⟩ := List.getElem?_eq_some_iff.mp at_column
  have fits := longest_above _ line (List.mem_of_getElem? at_row)
  rw [same]
  simp only [glyphWidth,glyphHeight] at *
  omega

-- A patch of 12 pixels with borders of 3 and 4 around two short lines, and a margin of 2.
theorem text_boxed_two_lines :
    measureNinePatchText ⟨12,3,8,by decide,by decide⟩ ⟨12,3,8,by decide,by decide⟩ 2 [72,105,10,33] = (27,43) ∧
      ∃ pixels,innerDrawText ⟨40,60,by decide,by decide⟩ (fun _ _ => 170) true false 15 20 [72,105,10,33] = some pixels ∧
        Shows (fun _ _ => 170) true false 15 20 [[72,105],[33]] pixels := by
  obtain ⟨measured,fails,shows⟩ := text_boxed ⟨40,60,by decide,by decide⟩ (fun _ _ => 170) true false
    ⟨12,3,8,by decide,by decide⟩ ⟨12,3,8,by decide,by decide⟩ 10 15 2 [72,105,10,33]
    (by decide) (by decide) (by decide +kernel) (by decide +kernel)
  obtain ⟨pixels,drawn⟩ := Option.ne_none_iff_exists'.mp (mt fails.mp (by decide))
  exact ⟨measured.trans (by decide +kernel),pixels,drawn,(shows pixels drawn).1⟩

end Boxes

end TextLayout
