import Mathlib.Data.Nat.Basic
import Mathlib.Algebra.Order.Group.Nat
import Mathlib.Tactic.Ring

-- gameos/gfx.hh: nine-patch textures stretched over a rectangle.
namespace NinePatch

def u32 (n : Nat) : Nat := n % 4294967296

def mapNinePatchCoordinate (coordinate sourceLength sourceSplit1 sourceSplit2 destinationLength : Nat) : Nat :=
  let sourceLeftMargin := sourceSplit1
  let sourceRightMargin := sourceLength - sourceSplit2
  let sourceMarginsLength := sourceLeftMargin + sourceRightMargin
  -- the products of the margins are on 64 bits
  let compressed := destinationLength < sourceMarginsLength
  let destinationLeftMargin :=
    if compressed then sourceLeftMargin * destinationLength / sourceMarginsLength else sourceLeftMargin
  let destinationRightMargin := if compressed then destinationLength - destinationLeftMargin else sourceRightMargin
  let destinationMiddleStart := destinationLeftMargin
  let destinationMiddleEnd := destinationLength - destinationRightMargin
  if coordinate < destinationMiddleStart then
    if destinationLeftMargin = 0 then 0
    else u32 (coordinate * sourceLeftMargin) / destinationLeftMargin
  else if coordinate < destinationMiddleEnd then
    let destinationMiddleLength := destinationMiddleEnd - destinationMiddleStart
    let sourceMiddleLength := sourceSplit2 - sourceSplit1
    if destinationMiddleLength = 0 ∨ sourceMiddleLength = 0 then sourceSplit1
    else u32 (sourceSplit1 +
      u32 ((coordinate - destinationMiddleStart) * sourceMiddleLength) / destinationMiddleLength)
  else if destinationRightMargin = 0 then sourceSplit2
  else u32 (sourceSplit2 +
    u32 ((coordinate - destinationMiddleEnd) * sourceRightMargin) / destinationRightMargin)

-- One direction of a patch: what the callers check, for u32 values.
structure Axis where
  source : Nat
  split1 : Nat
  split2 : Nat
  destination : Nat
  ordered : split1 ≤ split2
  inside : split2 ≤ source
  filled : 0 < source
  drawn : 0 < destination
  source_fits : source < 4294967296
  destination_fits : destination < 4294967296

namespace Axis
variable (axis : Axis)

def left : Nat := axis.split1
def right : Nat := axis.source - axis.split2
def middle : Nat := axis.split2 - axis.split1
def margins : Nat := axis.left + axis.right

-- The lengths of the three bands at the destination.
def leftDrawn : Nat :=
  if axis.destination < axis.margins then axis.left * axis.destination / axis.margins else axis.left
def rightDrawn : Nat := if axis.destination < axis.margins then axis.destination - axis.leftDrawn else axis.right
def middleDrawn : Nat := axis.destination - axis.rightDrawn - axis.leftDrawn

def map (coordinate : Nat) : Nat :=
  mapNinePatchCoordinate coordinate axis.source axis.split1 axis.split2 axis.destination

-- The product a coordinate is interpolated with.
def product (coordinate : Nat) : Nat :=
  if coordinate < axis.leftDrawn then coordinate * axis.left
  else if coordinate < axis.destination - axis.rightDrawn then (coordinate - axis.leftDrawn) * axis.middle
  else (coordinate - (axis.destination - axis.rightDrawn)) * axis.right

-- The mapping computes without overflow, stays in the source, keeps the order,
-- and does not scale margins that have room.
structure Maps : Prop where
  fits : ∀ c < axis.destination,axis.product c < 4294967296
  inside : ∀ c < axis.destination,axis.map c < axis.source
  monotone : ∀ c d,c ≤ d → d < axis.destination → axis.map c ≤ axis.map d
  left_margin : axis.margins ≤ axis.destination → ∀ c < axis.left,axis.map c = c
  right_margin : axis.margins ≤ axis.destination → ∀ c,axis.destination - axis.right ≤ c → c < axis.destination →
    axis.map c = axis.split2 + (c - (axis.destination - axis.right))

-- No product of a band passes 32 bits, and the patch is not all left margin
-- with room left.
structure Good : Prop where
  left : (axis.leftDrawn - 1) * axis.left < 4294967296
  middle : (axis.middleDrawn - 1) * axis.middle < 4294967296
  right : (axis.rightDrawn - 1) * axis.right < 4294967296
  sourced : axis.split1 = axis.source → axis.destination ≤ axis.source

theorem sizes : axis.left + axis.middle + axis.right = axis.source := by
  have ordered := axis.ordered
  have inside := axis.inside
  unfold left middle right
  omega

theorem leftDrawn_le : axis.leftDrawn ≤ axis.left ∧ axis.leftDrawn + axis.rightDrawn ≤ axis.destination := by
  unfold rightDrawn leftDrawn
  by_cases compressed : axis.destination < axis.margins
  · rw [if_pos compressed,if_pos compressed]
    have positive : 0 < axis.margins := by omega
    have small : axis.left * axis.destination / axis.margins ≤ axis.left :=
      Nat.div_le_of_le_mul (by rw [Nat.mul_comm axis.margins]; exact Nat.mul_le_mul_left _ (by omega))
    have part : axis.left ≤ axis.margins := Nat.le_add_right _ _
    have inside : axis.left * axis.destination / axis.margins ≤ axis.destination :=
      Nat.div_le_of_le_mul (Nat.mul_le_mul_right _ part)
    omega
  · rw [if_neg compressed,if_neg compressed]
    unfold margins at compressed
    omega

-- A right band is drawn only where the source has one.
theorem right_source (drawn : 0 < axis.rightDrawn) : 0 < axis.right := by
  unfold rightDrawn leftDrawn at drawn
  by_cases compressed : axis.destination < axis.margins
  · rw [if_pos compressed,if_pos compressed] at drawn
    refine Nat.pos_of_ne_zero fun none => ?_
    have whole : axis.margins = axis.left := by unfold margins; omega
    rw [whole,Nat.mul_comm,Nat.mul_div_cancel _ (by omega)] at drawn
    omega
  · rwa [if_neg compressed] at drawn

-- Compressed margins leave nothing in the middle.
theorem middle_room (drawn : 0 < axis.middleDrawn) : axis.margins < axis.destination ∧
    axis.leftDrawn = axis.left ∧ axis.rightDrawn = axis.right := by
  have bounds := axis.leftDrawn_le
  unfold middleDrawn at drawn
  by_cases compressed : axis.destination < axis.margins
  · have right : axis.rightDrawn = axis.destination - axis.leftDrawn := if_pos compressed
    omega
  · have left : axis.leftDrawn = axis.left := if_neg compressed
    have right : axis.rightDrawn = axis.right := if_neg compressed
    unfold margins
    omega

theorem map_left (before : c < axis.leftDrawn) : axis.map c = u32 (c * axis.left) / axis.leftDrawn :=
  (if_pos before).trans (if_neg (show ¬ axis.leftDrawn = 0 by omega))

theorem map_middle (after : ¬ c < axis.leftDrawn) (before : c < axis.destination - axis.rightDrawn) :
    axis.map c = if axis.middle = 0 then axis.split1
      else u32 (axis.split1 + u32 ((c - axis.leftDrawn) * axis.middle) / axis.middleDrawn) := by
  have drawn : ¬ axis.middleDrawn = 0 := by unfold middleDrawn; omega
  refine (if_neg after).trans ((if_pos before).trans ?_)
  by_cases none : axis.middle = 0
  · exact (if_pos (.inr none)).trans (if_pos none).symm
  · exact (if_neg (not_or.mpr ⟨drawn,none⟩)).trans (if_neg none).symm

theorem map_right (after : ¬ c < axis.destination - axis.rightDrawn) (inside : c < axis.destination) :
    axis.map c = u32 (axis.split2 +
      u32 ((c - (axis.destination - axis.rightDrawn)) * axis.right) / axis.rightDrawn) := by
  have bounds := axis.leftDrawn_le
  have drawn : ¬ axis.rightDrawn = 0 := by omega
  have late : ¬ c < axis.leftDrawn := by omega
  exact (if_neg late).trans ((if_neg after).trans (if_neg drawn))

theorem u32_fits (fits : n < 4294967296) : u32 n = n := Nat.mod_eq_of_lt fits

-- Interpolating inside a band stays before its end and keeps the order.
theorem interpolated_lt {offset length room : Nat} (positive : 0 < length) (inside : offset < room) :
    offset * length / room < length :=
  Nat.div_lt_of_lt_mul (Nat.mul_lt_mul_of_pos_right inside positive)

theorem interpolated_mono (length room : Nat) (order : c ≤ d) : c * length / room ≤ d * length / room :=
  Nat.div_le_div_right (Nat.mul_le_mul_right length order)

-- The value of a coordinate where no product overflows.
def value (c : Nat) : Nat :=
  if c < axis.leftDrawn then c * axis.left / axis.leftDrawn
  else if c < axis.destination - axis.rightDrawn then
    axis.split1 + (c - axis.leftDrawn) * axis.middle / axis.middleDrawn
  else axis.split2 + (c - (axis.destination - axis.rightDrawn)) * axis.right / axis.rightDrawn

-- Where each band's values lie.
theorem value_bounds (inside : c < axis.destination) :
    (c < axis.leftDrawn ∧ axis.value c < axis.split1) ∨
    (¬ c < axis.leftDrawn ∧ c < axis.destination - axis.rightDrawn ∧ axis.split1 ≤ axis.value c ∧
      axis.value c ≤ axis.split2 ∧ (0 < axis.middle → axis.value c < axis.split2)) ∨
    (¬ c < axis.leftDrawn ∧ ¬ c < axis.destination - axis.rightDrawn ∧ axis.split2 ≤ axis.value c ∧
      axis.value c < axis.source) := by
  have bounds := axis.leftDrawn_le
  have ordered := axis.ordered
  have sourced := axis.inside
  by_cases before : c < axis.leftDrawn
  · refine .inl ⟨before,?_⟩
    rw [value,if_pos before]
    exact interpolated_lt (show 0 < axis.left by omega) before
  · by_cases amid : c < axis.destination - axis.rightDrawn
    · refine .inr (.inl ⟨before,amid,?_⟩)
      rw [value,if_neg before,if_pos amid]
      have room : c - axis.leftDrawn < axis.middleDrawn := by unfold middleDrawn; omega
      have size : axis.middle = axis.split2 - axis.split1 := rfl
      by_cases none : axis.middle = 0
      · rw [none,Nat.mul_zero,Nat.zero_div]
        omega
      · have short : (c - axis.leftDrawn) * axis.middle / axis.middleDrawn < axis.middle := interpolated_lt (by omega) room
        generalize (c - axis.leftDrawn) * axis.middle / axis.middleDrawn = q at short ⊢
        omega
    · refine .inr (.inr ⟨before,amid,?_⟩)
      rw [value,if_neg before,if_neg amid]
      have room : c - (axis.destination - axis.rightDrawn) < axis.rightDrawn := by omega
      have size : axis.right = axis.source - axis.split2 := rfl
      have short := interpolated_lt (axis.right_source (by omega)) room
      generalize (c - (axis.destination - axis.rightDrawn)) * axis.right / axis.rightDrawn = q at short ⊢
      omega

theorem map_value (inside : c < axis.destination) (fits : axis.product c < 4294967296) : axis.map c = axis.value c := by
  have small := axis.source_fits
  have sourced := axis.inside
  unfold product at fits
  obtain ⟨before,_⟩ | ⟨before,amid,_,bounded,_⟩ | ⟨before,amid,_,bounded⟩ := axis.value_bounds inside
  · rw [if_pos before] at fits
    rw [axis.map_left before,value,if_pos before,u32_fits fits]
  · rw [if_neg before,if_pos amid] at fits
    rw [axis.map_middle before amid]
    rw [value,if_neg before,if_pos amid] at bounded ⊢
    rw [u32_fits fits,u32_fits (by omega)]
    split
    case isTrue none => rw [none,Nat.mul_zero,Nat.zero_div,Nat.add_zero]
    case isFalse => rfl
  · rw [if_neg before,if_neg amid] at fits
    rw [axis.map_right amid inside]
    rw [value,if_neg before,if_neg amid] at bounded ⊢
    rw [u32_fits fits,u32_fits (by omega)]

theorem value_mono (order : c ≤ d) (inside : d < axis.destination) : axis.value c ≤ axis.value d := by
  have ordered := axis.ordered
  obtain ⟨first,low⟩ | ⟨first,amid,low,high,_⟩ | ⟨first,amid,low,_⟩ := axis.value_bounds (Nat.lt_of_le_of_lt order inside)
  · obtain ⟨last,_⟩ | ⟨_,_,_,_,_⟩ | ⟨_,_,_,_⟩ := axis.value_bounds inside
    · rw [value,value,if_pos first,if_pos last]
      exact interpolated_mono _ _ order
    · omega
    · omega
  · obtain ⟨last,_⟩ | ⟨last,still,_⟩ | ⟨_,_,_,_⟩ := axis.value_bounds inside
    · omega
    · rw [value,value,if_neg first,if_pos amid,if_neg last,if_pos still]
      exact Nat.add_le_add_left (interpolated_mono _ _ (by omega)) _
    · omega
  · obtain ⟨last,_⟩ | ⟨last,still,_⟩ | ⟨last,still,_⟩ := axis.value_bounds inside
    · omega
    · omega
    · rw [value,value,if_neg first,if_neg amid,if_neg last,if_neg still]
      exact Nat.add_le_add_left (interpolated_mono _ _ (by omega)) _

theorem Good.fits (good : axis.Good) (inside : c < axis.destination) : axis.product c < 4294967296 := by
  have bounds := axis.leftDrawn_le
  unfold product
  split
  case isTrue before =>
    exact Nat.lt_of_le_of_lt (Nat.mul_le_mul_right axis.left (show c ≤ axis.leftDrawn - 1 by omega)) good.left
  case isFalse before =>
    split
    case isTrue amid =>
      have last : c - axis.leftDrawn ≤ axis.middleDrawn - 1 := by unfold middleDrawn; omega
      exact Nat.lt_of_le_of_lt (Nat.mul_le_mul_right axis.middle last) good.middle
    case isFalse amid =>
      have last : c - (axis.destination - axis.rightDrawn) ≤ axis.rightDrawn - 1 := by omega
      exact Nat.lt_of_le_of_lt (Nat.mul_le_mul_right axis.right last) good.right

theorem Good.maps (good : axis.Good) : axis.Maps := by
  have ordered := axis.ordered
  have sourced := axis.inside
  have bounds := axis.leftDrawn_le
  refine ⟨fun c inside => good.fits axis inside,fun c inside => ?_,fun c d order inside => ?_,fun room c before => ?_,
    fun room c after inside => ?_⟩
  · rw [axis.map_value inside (good.fits axis inside)]
    obtain ⟨_,low⟩ | ⟨first,amid,_,high,short⟩ | ⟨_,_,_,high⟩ := axis.value_bounds inside
    · omega
    · by_cases some : 0 < axis.middle
      · have := short some
        omega
      · -- with no middle in the source, split1 is the value, and is inside
        have drawn : 0 < axis.middleDrawn := by unfold middleDrawn; omega
        have size : axis.middle = axis.split2 - axis.split1 := rfl
        have wide := axis.middle_room drawn
        have whole : axis.left = axis.split1 := rfl
        have margin : axis.margins = axis.left + axis.right := rfl
        by_cases full : axis.split1 = axis.source
        · have := good.sourced full
          omega
        · omega
    · exact high
  · rw [axis.map_value (Nat.lt_of_le_of_lt order inside) (good.fits axis (Nat.lt_of_le_of_lt order inside)),
      axis.map_value inside (good.fits axis inside)]
    exact axis.value_mono order inside
  · have whole : axis.leftDrawn = axis.left := if_neg (Nat.not_lt.mpr room)
    have inside : c < axis.destination := by omega
    rw [axis.map_value inside (good.fits axis inside),value,if_pos (by omega),whole,Nat.mul_div_cancel _ (by omega)]
  · have whole : axis.rightDrawn = axis.right := if_neg (Nat.not_lt.mpr room)
    have left : axis.leftDrawn = axis.left := if_neg (Nat.not_lt.mpr room)
    have margin : axis.margins = axis.left + axis.right := rfl
    rw [axis.map_value inside (good.fits axis inside),value,if_neg (by omega),if_neg (by omega),whole,
      Nat.mul_div_cancel _ (by omega)]

theorem Maps.good (maps : axis.Maps) : axis.Good := by
  have bounds := axis.leftDrawn_le
  have small := axis.source_fits
  refine ⟨?_,?_,?_,fun full => Nat.le_of_not_lt fun room => ?_⟩
  · by_cases none : axis.leftDrawn = 0
    · simp [none]
    · have last := maps.fits (axis.leftDrawn - 1) (by omega)
      rwa [product,if_pos (by omega)] at last
  · by_cases none : axis.middleDrawn = 0
    · simp [none]
    · have size : axis.middleDrawn = axis.destination - axis.rightDrawn - axis.leftDrawn := rfl
      have last := maps.fits (axis.destination - axis.rightDrawn - 1) (by omega)
      rw [product,if_neg (by omega),if_pos (by omega)] at last
      rwa [show axis.middleDrawn - 1 = axis.destination - axis.rightDrawn - 1 - axis.leftDrawn by omega]
  · by_cases none : axis.rightDrawn = 0
    · simp [none]
    · have drawn := axis.drawn
      have last := maps.fits (axis.destination - 1) (by omega)
      rw [product,if_neg (by omega),if_neg (by omega)] at last
      rwa [show axis.rightDrawn - 1 = axis.destination - 1 - (axis.destination - axis.rightDrawn) by omega]
  · -- the coordinate after the left margin is mapped to split1
    have ordered := axis.ordered
    have sourced := axis.inside
    have margin : axis.margins = axis.split1 + (axis.source - axis.split2) := rfl
    have left : axis.leftDrawn = axis.split1 := if_neg (by omega)
    have right : axis.rightDrawn = axis.source - axis.split2 := if_neg (by omega)
    have inside := maps.inside axis.source room
    have middle : axis.middle = 0 := by unfold Axis.middle; omega
    rw [axis.map_middle (by omega) (by omega),if_pos middle] at inside
    omega

end Axis

-- A patch admitted for drawing, and the screen it is drawn on.
structure Patch where
  horizontal : Axis
  vertical : Axis
  x : Nat
  y : Nat
  screenWidth : Nat
  screenHeight : Nat
  x_inside : x < screenWidth
  y_inside : y < screenHeight

-- The texture indices inner_draw_nine_patch reads, row by row.
def innerDrawNinePatch (patch : Patch) : List Nat :=
  let clippedWidth := min patch.horizontal.destination (patch.screenWidth - patch.x)
  let clippedHeight := min patch.vertical.destination (patch.screenHeight - patch.y)
  (List.range clippedHeight).flatMap fun py =>
    let sourceY := patch.vertical.map py
    (List.range clippedWidth).map fun px =>
      u32 (u32 (sourceY * patch.horizontal.source) + patch.horizontal.map px)

theorem reads_inside (patch : Patch) (across : patch.horizontal.Good) (down : patch.vertical.Good) :
    ∀ index ∈ innerDrawNinePatch patch,index < patch.horizontal.source * patch.vertical.source := by
  intro index member
  obtain ⟨py,row,member⟩ := List.mem_flatMap.mp member
  obtain ⟨px,column,rfl⟩ := List.mem_map.mp member
  have low : py < patch.vertical.destination := Nat.lt_of_lt_of_le (List.mem_range.mp row) (Nat.min_le_left _ _)
  have left : px < patch.horizontal.destination := Nat.lt_of_lt_of_le (List.mem_range.mp column) (Nat.min_le_left _ _)
  have x := (across.maps _).inside px left
  have y := (down.maps _).inside py low
  have rows : patch.vertical.map py * patch.horizontal.source + patch.horizontal.source ≤
      patch.horizontal.source * patch.vertical.source := by
    calc patch.vertical.map py * patch.horizontal.source + patch.horizontal.source
        = patch.horizontal.source * (patch.vertical.map py + 1) := by ring
      _ ≤ _ := Nat.mul_le_mul_left _ y
  have inner : u32 (patch.vertical.map py * patch.horizontal.source) ≤ patch.vertical.map py * patch.horizontal.source :=
    Nat.mod_le _ _
  exact Nat.lt_of_le_of_lt (Nat.mod_le _ _) (by omega)

-- The mapping is as it should be exactly where no product overflows and the
-- left margin is not the whole source of a longer destination.
theorem nine_patch_exact (axis : Axis) (patch : Patch) : (axis.Maps ↔ axis.Good) ∧
    (patch.horizontal.Good → patch.vertical.Good →
      ∀ index ∈ innerDrawNinePatch patch,index < patch.horizontal.source * patch.vertical.source) :=
  ⟨⟨fun maps => maps.good axis,fun good => good.maps axis⟩,reads_inside patch⟩

theorem one_fits : 1 < 4294967296 := by decide
theorem two_fits : 2 < 4294967296 := by decide

-- A source of one pixel, all left margin, drawn twice as long: the second
-- pixel is read behind the texture.
def allMargin : Axis := ⟨1,1,1,2,by decide,by decide,Nat.one_pos,by decide,one_fits,two_fits⟩

-- Margins as long as the source, 70000 pixels: a product passes 32 bits.
def longMargin : Axis := ⟨70000,70000,70000,70000,by decide,by decide,by decide,by decide,by decide,by decide⟩

theorem margins_misread : allMargin.map 1 = 1 ∧ ¬ allMargin.Maps ∧
    innerDrawNinePatch ⟨allMargin,allMargin,0,0,2,2,by decide,by decide⟩ = [0,1,1,2] ∧
    longMargin.map 69999 = 8642 ∧ longMargin.map 61356 = 61356 ∧ ¬ longMargin.Maps := by
  have misread : allMargin.map 1 = 1 := by decide
  have wrapped : longMargin.map 69999 = 8642 := by decide
  refine ⟨misread,fun maps => ?_,by decide,wrapped,by decide,fun maps => ?_⟩
  · have inside := maps.inside 1 (by decide)
    rw [misread] at inside
    exact absurd inside (by decide)
  · have exact := maps.left_margin (by decide) 69999 (by decide)
    rw [wrapped] at exact
    exact absurd exact (by decide)

end NinePatch
