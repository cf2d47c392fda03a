import Mathlib.Algebra.Order.BigOperators.Group.List
import Mathlib.Algebra.Order.Ring.Abs
import Mathlib.Tactic.Linarith
import Mathlib.Tactic.Ring
import Gameos.ClippedRectangles

-- gameos/gfx.hh: circles, with four by four samples for the pixels of the edge only.
namespace CircleRasterization
open ClippedRectangles (u32 Screen upTo InBounds mem_upTo upTo_nodup grid_nodup)

def AA_RES : Nat := 4
def GFX_PIXEL_COUNT : Nat := 1920 * 1080

-- A command draw_circle has admitted, on the framebuffer that initialize has asserted.
structure CircleCommand (screen : Screen) where
  x : Nat
  y : Nat
  r : Nat
  alpha : Nat
  r_fits : r < 4294967296
  alpha_fits : alpha < 256
  x_inside : x < screen.width
  y_inside : y < screen.height
  asserted : GFX_PIXEL_COUNT = screen.width * screen.height

def difference (a b : Nat) : Nat := if b < a then a - b else b - a

def colorsTable (alpha i : Nat) : Nat := alpha * i / (AA_RES * AA_RES) % 256

def sampled (x y r px py offX offY : Nat) : Bool :=
  let sx := u32 (px * (AA_RES + 1) * 2 + offX * 2 + 2)
  let sy := u32 (py * (AA_RES + 1) * 2 + offY * 2 + 2)
  let cx := u32 (x * (AA_RES + 1) * 2 + (AA_RES + 1))
  let cy := u32 (y * (AA_RES + 1) * 2 + (AA_RES + 1))
  let dx := difference sx cx
  let dy := difference sy cy
  decide (u32 (dx * dx + dy * dy) ≤ u32 (r * r * ((AA_RES + 1) * (AA_RES + 1)) * 4))

def inCircle (x y r px py : Nat) : Nat :=
  ((List.range AA_RES).map fun offX => (List.range AA_RES).countP fun offY => sampled x y r px py offX offY).sum

def shade (x y r alpha px py : Nat) : Option Nat :=
  let innerR := if 1 < r then u32 ((r - 1) * (r - 1)) else 0
  let outerR := u32 (u32 (r + 1) * u32 (r + 1))
  let dx := difference px x
  let dy := difference py y
  let d2 := u32 (dx * dx + dy * dy)
  if d2 ≤ innerR then some alpha
  else if outerR ≤ d2 then none
  else some (colorsTable alpha (inCircle x y r px py))

variable {screen : Screen}

-- The calls of set_pixel, each with the alpha of its color.
def innerDrawCircle (command : CircleCommand screen) : List ((Nat × Nat) × Nat) :=
  let x1 := if command.r < command.x then command.x - command.r else 0
  let y1 := if command.r < command.y then command.y - command.r else 0
  let x2 := if u32 (command.x + command.r + 1) < command.x then screen.width else u32 (command.x + command.r + 1)
  let y2 := if u32 (command.y + command.r + 1) < command.y then screen.height else u32 (command.y + command.r + 1)
  ((upTo y1 (min y2 screen.height)).flatMap fun py => (upTo x1 (min x2 screen.width)).map fun px => (px,py)).filterMap fun pixel =>
    (shade command.x command.y command.r command.alpha pixel.1 pixel.2).map fun alpha => (pixel,alpha)

-- A sample of a pixel, a fifth of a pixel from the next one, in the disc. Units of a tenth.
def Inside (x y r px py : Nat) (a b : Int) : Prop :=
  (10 * ((px : Int) - x) + a)^2 + (10 * ((py : Int) - y) + b)^2 ≤ (10 * (r : Int))^2

instance (x y r px py : Nat) (a b : Int) : Decidable (Inside x y r px py a b) := inferInstanceAs (Decidable (_ ≤ _))

def tap (off : Nat) : Int := 2 * (off : Int) - 3

-- Every pixel with all of its samples, no shortcut.
def coverage (x y r px py : Nat) : Nat :=
  ((List.range AA_RES).map fun offX => (List.range AA_RES).countP fun offY =>
    decide (Inside x y r px py (tap offX) (tap offY))).sum

structure Supersampled (command : CircleCommand screen) : Prop where
  asserted : ∀ call ∈ innerDrawCircle command,InBounds screen call.1
  once : ((innerDrawCircle command).map (·.1)).Nodup
  alphas : ∀ call ∈ innerDrawCircle command,
    call.2 = command.alpha * coverage command.x command.y command.r call.1.1 call.1.2 / (AA_RES * AA_RES)
  complete : ∀ px py,InBounds screen (px,py) → coverage command.x command.y command.r px py ≠ 0 →
    (px,py) ∈ (innerDrawCircle command).map (·.1)

section Samples
variable {x y r px py : Nat} {e f a b : Int}

theorem difference_cast (a b : Nat) : (difference a b : Int) * difference a b = ((a : Int) - b)^2 := by
  rw [difference]
  split
  · rename_i less
    rw [Nat.cast_sub less.le]
    ring
  · rename_i above
    rw [Nat.cast_sub (Nat.le_of_not_lt above)]
    ring

theorem sample_upper (near : |a| ≤ 3) (e : Int) : (10 * e + a)^2 ≤ 100 * e^2 + 60 * |e| + 9 := by
  have product : a * e ≤ 3 * |e| := by
    calc a * e ≤ |a * e| := le_abs_self _
      _ = |a| * |e| := abs_mul a e
      _ ≤ 3 * |e| := by gcongr
  have square : a^2 ≤ 9 := by
    have bounded := sq_le_sq' (show -3 ≤ a by exact (abs_le.mp near).1) (abs_le.mp near).2
    linarith
  nlinarith

theorem sample_lower (near : |a| ≤ 3) (odd : a ≠ 0) (e : Int) : 100 * e^2 - 60 * |e| + 1 ≤ (10 * e + a)^2 := by
  have product : -(3 * |e|) ≤ a * e := by
    have bounded : |a * e| ≤ 3 * |e| := by
      rw [abs_mul]
      gcongr
    exact neg_le_of_abs_le bounded
  have square : 1 ≤ a^2 := by
    have positive : 0 < a^2 := by positivity
    omega
  nlinarith

-- The two distances of a pixel add up to no more than one and a half times its distance.
theorem sum_bound (e f : Int) : (|e| + |f|)^2 ≤ 2 * (e^2 + f^2) := by
  have squares : |e|^2 = e^2 ∧ |f|^2 = f^2 := ⟨sq_abs e,sq_abs f⟩
  nlinarith [sq_nonneg (|e| - |f|)]

theorem inner_samples (some_ : 1 ≤ R) (inner : e^2 + f^2 ≤ (R - 1)^2) (nearA : |a| ≤ 3) (nearB : |b| ≤ 3) :
    (10 * e + a)^2 + (10 * f + b)^2 ≤ (10 * R)^2 := by
  have one := sample_upper nearA e
  have two := sample_upper nearB f
  have fewE : |e| ≤ R - 1 := abs_le_of_sq_le_sq (by nlinarith [sq_nonneg f]) (by linarith)
  have fewF : |f| ≤ R - 1 := abs_le_of_sq_le_sq (by nlinarith [sq_nonneg e]) (by linarith)
  nlinarith

theorem far_distance {R S T : Int} (some_ : 1 ≤ R) (far : R^2 ≤ S) (bound : T^2 ≤ 2 * S) :
    100 * (R - 1)^2 < 100 * S - 60 * T + 2 := by
  by_contra near
  have scaled : R * (100 * S - 60 * T + 2) ≤ R * (100 * (R - 1)^2) := mul_le_mul_of_nonneg_left (not_lt.mp near) (by linarith)
  have rest : 0 ≤ (100 * R - 40) * (S - R^2) := mul_nonneg (by linarith) (by linarith)
  have split : 0 ≤ (2 * T - 3 * R)^2 := sq_nonneg _
  nlinarith

theorem outer_samples (some_ : 0 ≤ R) (outer : (R + 1)^2 ≤ e^2 + f^2) (nearA : |a| ≤ 3) (oddA : a ≠ 0) (nearB : |b| ≤ 3) (oddB : b ≠ 0) :
    (10 * R)^2 < (10 * e + a)^2 + (10 * f + b)^2 := by
  have one := sample_lower nearA oddA e
  have two := sample_lower nearB oddB f
  have far := far_distance (show 1 ≤ R + 1 by linarith) outer (sum_bound e f)
  rw [add_sub_cancel_right] at far
  nlinarith

-- No more than this fits 32 bits.
theorem ring_bound {R : Int} (some_ : 0 ≤ R) (ring_ : e^2 + f^2 < (R + 1)^2) (nearA : |a| ≤ 3) (nearB : |b| ≤ 3) :
    (10 * e + a)^2 + (10 * f + b)^2 < 100 * (R + 1)^2 + 90 * (R + 1) := by
  have one := sample_upper nearA e
  have two := sample_upper nearB f
  have bound := sum_bound e f
  have sum : 2 * (|e| + |f|) < 3 * (R + 1) := by
    refine lt_of_pow_lt_pow_left₀ 2 (by linarith) ?_
    nlinarith
  linarith

end Samples

section Counting
variable {x y r px py : Nat}

theorem tap_near {off : Nat} (small : off ∈ List.range AA_RES) : |tap off| ≤ 3 ∧ tap off ≠ 0 := by
  rw [List.mem_range,AA_RES] at small
  rw [abs_le,tap]
  omega

theorem coverage_full (all : ∀ a b : Int,|a| ≤ 3 → |b| ≤ 3 → Inside x y r px py a b) : coverage x y r px py = AA_RES * AA_RES := by
  have row : ∀ offX ∈ List.range AA_RES,(List.range AA_RES).countP (fun offY =>
      decide (Inside x y r px py (tap offX) (tap offY))) = AA_RES := by
    intro offX small
    refine (List.countP_eq_length.mpr fun offY narrow => ?_).trans List.length_range
    exact decide_eq_true (all _ _ (tap_near small).1 (tap_near narrow).1)
  rw [coverage,List.map_congr_left row,List.map_const',List.sum_replicate_nat,List.length_range]

theorem coverage_none (outside : ∀ a b : Int,|a| ≤ 3 → a ≠ 0 → |b| ≤ 3 → b ≠ 0 → ¬ Inside x y r px py a b) : coverage x y r px py = 0 := by
  have row : ∀ offX ∈ List.range AA_RES,(List.range AA_RES).countP (fun offY =>
      decide (Inside x y r px py (tap offX) (tap offY))) = 0 := by
    intro offX small
    refine List.countP_eq_zero.mpr fun offY narrow => ?_
    obtain ⟨nearA,oddA⟩ := tap_near small
    obtain ⟨nearB,oddB⟩ := tap_near narrow
    rw [decide_eq_true_eq]
    exact outside _ _ nearA oddA nearB oddB
  rw [coverage,List.map_congr_left row,List.map_const',List.sum_replicate_nat,Nat.mul_zero]

-- A sample in the code's numbers.
theorem sampled_exact (narrow : px < 2^28) (low : py < 2^28) (left : x < 2^28) (top : y < 2^28) (small : r ≤ 6552) (offX offY : Nat)
    (fewX : offX < AA_RES) (fewY : offY < AA_RES)
    (fits : (10 * ((px : Int) - x) + tap offX)^2 + (10 * ((py : Int) - y) + tap offY)^2 < 4294967296) :
    sampled x y r px py offX offY = decide (Inside x y r px py (tap offX) (tap offY)) := by
  have whole : ∀ n,n < 2^28 → ∀ k < 10,u32 (n * (AA_RES + 1) * 2 + k) = n * (AA_RES + 1) * 2 + k := by
    intro n less k few
    exact Nat.mod_eq_of_lt (by simp only [AA_RES]; omega)
  have distance : ∀ (p c off : Nat),difference (p * (AA_RES + 1) * 2 + off * 2 + 2) (c * (AA_RES + 1) * 2 + (AA_RES + 1)) *
      difference (p * (AA_RES + 1) * 2 + off * 2 + 2) (c * (AA_RES + 1) * 2 + (AA_RES + 1)) =
        ((10 * ((p : Int) - c) + tap off)^2).toNat := by
    intro p c off
    have cast := difference_cast (p * (AA_RES + 1) * 2 + off * 2 + 2) (c * (AA_RES + 1) * 2 + (AA_RES + 1))
    have same : (((p * (AA_RES + 1) * 2 + off * 2 + 2 : Nat) : Int) - (c * (AA_RES + 1) * 2 + (AA_RES + 1) : Nat)) =
        10 * ((p : Int) - c) + tap off := by
      simp only [AA_RES,tap]
      push_cast
      ring
    rw [same,← Nat.cast_mul] at cast
    rw [← cast,Int.toNat_natCast]
  have sums : ∀ off,off < AA_RES → ∀ n,n < 2^28 → u32 (n * (AA_RES + 1) * 2 + off * 2 + 2) = n * (AA_RES + 1) * 2 + off * 2 + 2 := by
    intro off few n less
    rw [AA_RES] at few
    rw [Nat.add_assoc]
    exact whole n less _ (by omega)
  have centre : ∀ n,n < 2^28 → u32 (n * (AA_RES + 1) * 2 + (AA_RES + 1)) = n * (AA_RES + 1) * 2 + (AA_RES + 1) :=
    fun n less => whole n less _ (by decide)
  simp only [sampled]
  rw [sums offX fewX px narrow,sums offY fewY py low,centre x left,centre y top,distance,distance]
  have radius : r * r ≤ 6552 * 6552 := Nat.mul_le_mul small small
  have square : (10 * (r : Int))^2 = ((r * r * ((AA_RES + 1) * (AA_RES + 1)) * 4 : Nat) : Int) := by
    simp only [AA_RES]
    push_cast
    ring
  have disc : u32 (r * r * ((AA_RES + 1) * (AA_RES + 1)) * 4) = r * r * ((AA_RES + 1) * (AA_RES + 1)) * 4 :=
    Nat.mod_eq_of_lt (by simp only [AA_RES]; omega)
  rw [decide_eq_decide]
  unfold Inside
  rw [square,disc]
  have first := sq_nonneg (10 * ((px : Int) - x) + tap offX)
  have second := sq_nonneg (10 * ((py : Int) - y) + tap offY)
  generalize (10 * ((px : Int) - x) + tap offX)^2 = u at *
  generalize (10 * ((py : Int) - y) + tap offY)^2 = v at *
  have sum : u32 (u.toNat + v.toNat) = u.toNat + v.toNat := Nat.mod_eq_of_lt (by omega)
  rw [sum]
  omega

-- How far a pixel of the screen can be from the circle's center.
structure Near (x y r px py : Nat) : Prop where
  narrow : px < 2^28
  low : py < 2^28
  left : x < 2^28
  top : y < 2^28
  small : r ≤ 6552

theorem outside_coverage (outer : ((r : Int) + 1)^2 ≤ ((px : Int) - x)^2 + ((py : Int) - y)^2) : coverage x y r px py = 0 := by
  refine coverage_none fun a b nearA oddA nearB oddB inside => ?_
  exact absurd inside (not_le.mpr (outer_samples (Int.natCast_nonneg r) outer nearA oddA nearB oddB))

theorem inCircle_exact (near : Near x y r px py) (ring_ : ((px : Int) - x)^2 + ((py : Int) - y)^2 < ((r : Int) + 1)^2) :
    inCircle x y r px py = coverage x y r px py := by
  have small := near.small
  rw [inCircle,coverage]
  refine congrArg List.sum (List.map_congr_left fun offX fewX => List.countP_congr fun offY fewY => ?_)
  have bound := ring_bound (Int.natCast_nonneg r) ring_ (tap_near fewX).1 (tap_near fewY).1
  have fits : 100 * ((r : Int) + 1)^2 + 90 * ((r : Int) + 1) ≤ 4294967296 := by nlinarith
  rw [sampled_exact near.narrow near.low near.left near.top small offX offY (List.mem_range.mp fewX) (List.mem_range.mp fewY) (by linarith)]

theorem coverage_few : coverage x y r px py ≤ AA_RES * AA_RES := by
  rw [coverage]
  refine (List.sum_le_card_nsmul _ AA_RES fun count listed => ?_).trans (by simp)
  obtain ⟨offX,_,rfl⟩ := List.mem_map.mp listed
  exact List.countP_le_length.trans (by simp)

theorem colorsTable_exact (fits : alpha < 256) : colorsTable alpha (coverage x y r px py) = alpha * coverage x y r px py / (AA_RES * AA_RES) := by
  refine Nat.mod_eq_of_lt (Nat.lt_of_le_of_lt ?_ fits)
  exact Nat.div_le_of_le_mul (by rw [Nat.mul_comm]; exact Nat.mul_le_mul_right _ coverage_few)

-- The shortcuts, and what is between them.
theorem shade_exact (near : Near x y r px py) (fits : alpha < 256) (wide : difference px x ≤ r) (high : difference py y ≤ r) (some_ : r ≠ 0) :
    (shade x y r alpha px py = none ∧ coverage x y r px py = 0) ∨
      shade x y r alpha px py = some (alpha * coverage x y r px py / (AA_RES * AA_RES)) := by
  have small := near.small
  have castX := difference_cast px x
  have castY := difference_cast py y
  have squareX : difference px x * difference px x ≤ 6552 * 6552 := Nat.mul_le_mul (wide.trans small) (wide.trans small)
  have squareY : difference py y * difference py y ≤ 6552 * 6552 := Nat.mul_le_mul (high.trans small) (high.trans small)
  have sum : u32 (difference px x * difference px x + difference py y * difference py y) =
      difference px x * difference px x + difference py y * difference py y := Nat.mod_eq_of_lt (by omega)
  have d2 : ((difference px x * difference px x + difference py y * difference py y : Nat) : Int) =
      ((px : Int) - x)^2 + ((py : Int) - y)^2 := by
    push_cast
    rw [castX,castY]
  have innerR : ((if 1 < r then u32 ((r - 1) * (r - 1)) else 0 : Nat) : Int) = ((r : Int) - 1)^2 := by
    by_cases more : 1 < r
    · have square : (r - 1) * (r - 1) ≤ 6552 * 6552 := Nat.mul_le_mul (by omega) (by omega)
      have whole : u32 ((r - 1) * (r - 1)) = (r - 1) * (r - 1) := Nat.mod_eq_of_lt (by omega)
      rw [if_pos more,whole,Nat.cast_mul,Nat.cast_sub more.le]
      ring
    · have one : r = 1 := by omega
      rw [if_neg more,one]
      rfl
  have outerR : ((u32 (u32 (r + 1) * u32 (r + 1)) : Nat) : Int) = ((r : Int) + 1)^2 := by
    have edge : u32 (r + 1) = r + 1 := Nat.mod_eq_of_lt (by omega)
    have square : (r + 1) * (r + 1) ≤ 6553 * 6553 := Nat.mul_le_mul (by omega) (by omega)
    have whole : u32 ((r + 1) * (r + 1)) = (r + 1) * (r + 1) := Nat.mod_eq_of_lt (by omega)
    rw [edge,whole]
    push_cast
    ring
  rw [shade,sum]
  generalize (if 1 < r then u32 ((r - 1) * (r - 1)) else 0) = inner at innerR ⊢
  generalize u32 (u32 (r + 1) * u32 (r + 1)) = outer at outerR ⊢
  generalize difference px x * difference px x + difference py y * difference py y = square at d2 ⊢
  split
  case isTrue inner =>
    have inside : ((px : Int) - x)^2 + ((py : Int) - y)^2 ≤ ((r : Int) - 1)^2 := by
      rw [← d2,← innerR]
      exact_mod_cast inner
    have full : coverage x y r px py = AA_RES * AA_RES :=
      coverage_full fun a b nearA nearB => inner_samples (by omega) inside nearA nearB
    rw [full,Nat.mul_div_cancel _ (by decide)]
    exact .inr rfl
  case isFalse =>
    split
    case isTrue outer =>
      refine .inl ⟨rfl,outside_coverage ?_⟩
      rw [← d2,← outerR]
      exact_mod_cast outer
    case isFalse near_ =>
      have ring_ : ((px : Int) - x)^2 + ((py : Int) - y)^2 < ((r : Int) + 1)^2 := by
        rw [← d2,← outerR]
        exact_mod_cast not_le.mp near_
      rw [inCircle_exact near ring_,colorsTable_exact fits]
      exact .inr rfl

end Counting

section Circles
variable {command : CircleCommand screen}

theorem screen_small (command : CircleCommand screen) : screen.width ≤ GFX_PIXEL_COUNT ∧ screen.height ≤ GFX_PIXEL_COUNT := by
  have x_inside := command.x_inside
  have y_inside := command.y_inside
  rw [command.asserted]
  exact ⟨Nat.le_mul_of_pos_right _ (by omega),Nat.le_mul_of_pos_left _ (by omega)⟩

theorem near_command (small : command.r ≤ 6552) (inside : InBounds screen (px,py)) : Near command.x command.y command.r px py := by
  obtain ⟨narrow,low⟩ := screen_small command
  have x_inside := command.x_inside
  have y_inside := command.y_inside
  obtain ⟨here,there⟩ := inside
  simp only [GFX_PIXEL_COUNT] at narrow low
  exact ⟨by omega,by omega,by omega,by omega,small⟩

-- The box around the circle, cut off at the screen.
theorem box_exact (small : command.r ≤ 6552) (pixel : Nat × Nat) (alpha : Nat) : (pixel,alpha) ∈ innerDrawCircle command ↔
    InBounds screen pixel ∧ difference pixel.1 command.x ≤ command.r ∧ difference pixel.2 command.y ≤ command.r ∧
      shade command.x command.y command.r command.alpha pixel.1 pixel.2 = some alpha := by
  obtain ⟨narrow,low⟩ := screen_small command
  have x_inside := command.x_inside
  have y_inside := command.y_inside
  simp only [GFX_PIXEL_COUNT] at narrow low
  have endX : u32 (command.x + command.r + 1) = command.x + command.r + 1 := Nat.mod_eq_of_lt (by omega)
  have endY : u32 (command.y + command.r + 1) = command.y + command.r + 1 := Nat.mod_eq_of_lt (by omega)
  have forwardX : ¬ command.x + command.r + 1 < command.x := by omega
  have forwardY : ¬ command.y + command.r + 1 < command.y := by omega
  have span : ∀ first r limit i,first < limit →
      (i ∈ upTo (if r < first then first - r else 0) (min (first + r + 1) limit) ↔ i < limit ∧ difference i first ≤ r) := by
    intro first r limit i inside
    rw [mem_upTo,difference]
    split <;> split <;> omega
  obtain ⟨px,py⟩ := pixel
  rw [innerDrawCircle]
  dsimp only
  rw [endX,endY,if_neg forwardX,if_neg forwardY,List.mem_filterMap]
  constructor
  · rintro ⟨other,listed,drawn⟩
    obtain ⟨py',row,member⟩ := List.mem_flatMap.mp listed
    obtain ⟨px',column,rfl⟩ := List.mem_map.mp member
    obtain ⟨shaded,here,same⟩ := Option.map_eq_some_iff.mp drawn
    cases same
    obtain ⟨insideX,wide⟩ := (span _ _ _ _ x_inside).mp column
    obtain ⟨insideY,high⟩ := (span _ _ _ _ y_inside).mp row
    exact ⟨⟨insideX,insideY⟩,wide,high,here⟩
  · rintro ⟨⟨insideX,insideY⟩,wide,high,here⟩
    dsimp only at here insideX insideY wide high
    refine ⟨(px,py),List.mem_flatMap.mpr ⟨py,(span _ _ _ _ y_inside).mpr ⟨insideY,high⟩,List.mem_map.mpr
      ⟨px,(span _ _ _ _ x_inside).mpr ⟨insideX,wide⟩,rfl⟩⟩,?_⟩
    dsimp only
    rw [here]
    rfl

theorem drawn_among (pixels : List (Nat × Nat)) (draw : Nat × Nat → Option Nat) :
    ((pixels.filterMap fun pixel => (draw pixel).map fun alpha => (pixel,alpha)).map (·.1)).Sublist pixels := by
  induction pixels with
  | nil => exact .slnil
  | cons pixel pixels ih =>
      rw [List.filterMap_cons]
      cases draw pixel with
      | none => exact ih.cons pixel
      | some alpha => exact ih.cons_cons pixel

theorem drawn_once (command : CircleCommand screen) : ((innerDrawCircle command).map (·.1)).Nodup := by
  have grid : ∀ rows columns : List Nat,rows.Nodup → columns.Nodup → (rows.flatMap fun py => columns.map fun px => (px,py)).Nodup := by
    intro rows columns once also
    refine grid_nodup rows columns (fun py px => (px,py)) ?_ once also
    intro py _ px _ py' _ px' _ same
    obtain ⟨x,y⟩ := Prod.mk.inj same
    exact ⟨y,x⟩
  rw [innerDrawCircle]
  exact (grid _ _ (upTo_nodup _ _) (upTo_nodup _ _)).sublist
    (drawn_among _ fun pixel => shade command.x command.y command.r command.alpha pixel.1 pixel.2)

theorem supersampled_all (small : command.r ≤ 6552) (some_ : command.r ≠ 0) : Supersampled command where
  asserted := fun call listed => ((box_exact small call.1 call.2).mp listed).1
  once := drawn_once command
  alphas := by
    rintro ⟨⟨px,py⟩,alpha⟩ listed
    obtain ⟨inside,wide,high,here⟩ := (box_exact small (px,py) alpha).mp listed
    rcases shade_exact (near_command small inside) command.alpha_fits wide high some_ with ⟨none,_⟩ | shaded
    · rw [here] at none
      cases none
    · rw [here] at shaded
      exact Option.some.inj shaded
  complete := by
    intro px py inside covered
    have inBox : difference px command.x ≤ command.r ∧ difference py command.y ≤ command.r := by
      by_contra outside
      refine covered (outside_coverage ?_)
      have castX := difference_cast px command.x
      have castY := difference_cast py command.y
      rw [← castX,← castY]
      rcases not_and_or.mp outside with far | far
      · have beyond : (command.r : Int) + 1 ≤ difference px command.x := by exact_mod_cast not_le.mp far
        nlinarith
      · have beyond : (command.r : Int) + 1 ≤ difference py command.y := by exact_mod_cast not_le.mp far
        nlinarith
    rcases shade_exact (near_command small inside) command.alpha_fits inBox.1 inBox.2 some_ with ⟨_,zero⟩ | shaded
    · exact absurd zero covered
    · exact List.mem_map.mpr ⟨_,(box_exact small (px,py) _).mpr ⟨inside,inBox.1,inBox.2,shaded⟩,rfl⟩

-- The center of a circle without a radius is drawn in full, where no sample is inside.
theorem point_supersampled (point : command.r = 0) : Supersampled command ↔ command.alpha = 0 := by
  have small : command.r ≤ 6552 := by omega
  have center : ∀ px py,difference px command.x ≤ command.r → difference py command.y ≤ command.r → px = command.x ∧ py = command.y := by
    intro px py wide high
    rw [point,difference] at wide high
    split at wide <;> split at high <;> omega
  have here : (∀ n,difference n n = 0) := fun n => by rw [difference,if_neg (Nat.lt_irrefl n),Nat.sub_self]
  have full : shade command.x command.y command.r command.alpha command.x command.y = some command.alpha := by
    rw [shade,here,here,point]
    rfl
  have drawn : ((command.x,command.y),command.alpha) ∈ innerDrawCircle command := by
    refine (box_exact small (command.x,command.y) command.alpha).mpr ⟨⟨command.x_inside,command.y_inside⟩,?_,?_,full⟩
    · rw [here]
      exact Nat.zero_le _
    · rw [here]
      exact Nat.zero_le _
  have none : ∀ px py,coverage command.x command.y command.r px py = 0 := by
    intro px py
    refine coverage_none fun a b nearA oddA nearB oddB inside => ?_
    unfold Inside at inside
    rw [point,Nat.cast_zero] at inside
    have zero : (10 * ((px : Int) - command.x) + a)^2 = 0 := by nlinarith [sq_nonneg (10 * ((px : Int) - command.x) + a)]
    have exact := pow_eq_zero_iff (two_ne_zero) |>.mp zero
    rw [abs_le] at nearA
    omega
  constructor
  · intro supersampled
    have alpha := supersampled.alphas _ drawn
    rw [none,Nat.mul_zero,Nat.zero_div] at alpha
    exact alpha
  · intro clear
    refine ⟨fun call listed => ((box_exact small call.1 call.2).mp listed).1,drawn_once command,?_,fun px py _ covered => absurd (none px py) covered⟩
    rintro ⟨⟨px,py⟩,alpha⟩ listed
    obtain ⟨_,wide,high,shaded⟩ := (box_exact small (px,py) alpha).mp listed
    obtain ⟨rfl,rfl⟩ := center px py wide high
    rw [full] at shaded
    rw [none,Nat.mul_zero,Nat.zero_div]
    exact (Option.some.inj shaded).symm.trans clear

end Circles

-- With its shortcuts, in 32 bits, a circle is what all samples of all pixels make of it, up to
-- the radius whose squares still fit; but a circle without a radius is a full pixel.
theorem circle_exact {screen : Screen} (command : CircleCommand screen) (small : command.r ≤ 6552) :
    Supersampled command ↔ command.r ≠ 0 ∨ command.alpha = 0 := by
  by_cases point : command.r = 0
  · rw [point_supersampled point,or_iff_right (not_not.mpr point)]
  · exact iff_of_true (supersampled_all small point) (.inl point)

def smallScreen : Screen := ⟨1920,1080,by decide,by decide⟩
def ball : CircleCommand smallScreen := ⟨5,7,3,255,by decide,by decide,by decide,by decide,by decide⟩

theorem ball_supersampled : Supersampled ball := (circle_exact ball (by decide)).mpr (.inl (by decide))

end CircleRasterization
