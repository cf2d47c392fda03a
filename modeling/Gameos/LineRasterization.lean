import Mathlib.Data.Int.Bitwise
import Mathlib.Data.List.Range
import Mathlib.Tactic.Linarith
import Mathlib.Tactic.Ring

-- gameos/gfx.hh: lines, anti-aliased and raw, as the calls of set_pixel they make.
namespace LineRasterization

def u32 (v : Int) : Nat := (v % 4294967296).toNat
def s32 (v : Int) : Int := (v + 2147483648) % 4294967296 - 2147483648

structure Screen where
  width : Nat
  height : Nat
  width_range : 2 ≤ width ∧ width ≤ 4194304
  height_range : 2 ≤ height ∧ height ≤ 4194304

-- Line_Command, without its color.
structure LineCommand where
  x1 : Nat
  y1 : Nat
  x2 : Nat
  y2 : Nat
  deriving DecidableEq

def absDiff (a b : Nat) : Nat := if b < a then a - b else b - a

-- (x ^ (x >> 31)) - (x >> 31)
def abs (x : Int) : Int := s32 (Int.xor x (x >>> (31 : Nat)) - (x >>> (31 : Nat)))

def drawLine (screen : Screen) (x1 y1 x2 y2 : Nat) : Option LineCommand :=
  if screen.width < 2 ∨ screen.height < 2 then none
  else if screen.width ≤ x1 ∨ screen.height ≤ y1 then none
  else if screen.width ≤ x2 ∨ screen.height ≤ y2 then none
  else
    let maxX := screen.width - 2
    let maxY := screen.height - 2
    some ⟨min x1 maxX,min y1 maxY,min x2 maxX,min y2 maxY⟩

def drawRawLine (screen : Screen) (x1 y1 x2 y2 : Nat) : Option LineCommand :=
  if screen.width ≤ x1 ∨ screen.height ≤ y1 then none
  else if screen.width ≤ x2 ∨ screen.height ≤ y2 then none
  else
    let maxX := screen.width - 2
    let maxY := screen.height - 2
    some ⟨min x1 maxX,min y1 maxY,min x2 maxX,min y2 maxY⟩

-- The two swaps both rasterizers start with.
def oriented (line : LineCommand) : Bool × LineCommand :=
  let steep := decide (absDiff line.x1 line.x2 < absDiff line.y1 line.y2)
  let line : LineCommand := if steep then ⟨line.y1,line.x1,line.y2,line.x2⟩ else line
  (steep,if line.x2 < line.x1 then ⟨line.x2,line.y2,line.x1,line.y1⟩ else line)

-- The arguments of set_pixel, swapped back for a steep line.
def place (steep : Bool) (x y : Nat) : Nat × Nat := if steep then (y,x) else (x,y)

-- A for loop over x that carries a state: what it plots.
def walk {σ β : Type} (plot : Nat → σ → β) (turn : σ → σ) : List Nat → σ → List β
  | [],_ => []
  | x :: xs,s => plot x s :: walk plot turn xs (turn s)

def FIXED_POINT_SHIFT : Nat := 8
def FIXED_POINT_ONE : Int := 256

def fixedPointFloor (x : Int) : Int := x >>> FIXED_POINT_SHIFT
def fractionalPart (x : Int) : Int := x % FIXED_POINT_ONE
def reverseFractionalPart (x : Int) : Int := FIXED_POINT_ONE - fractionalPart x
def alpha (x : Int) : Nat := (((x * 255) >>> FIXED_POINT_SHIFT) % 256).toNat

-- A call of set_pixel, and the alpha of its color.
abbrev Call := (Nat × Nat) × Nat

-- The pixel of a row and the one after it.
def pair (steep : Bool) (x : Nat) (fixed : Int) : List Call :=
  let y := fixedPointFloor fixed
  [(place steep x (u32 y),alpha (reverseFractionalPart fixed)),
    (place steep x (u32 (s32 (y + 1))),alpha (fractionalPart fixed))]

def innerDrawLineEndpoint (x y : Nat) (steep : Bool) : List Call × Int :=
  let sy := s32 (s32 y <<< FIXED_POINT_SHIFT)
  (pair steep x sy,sy)

def innerDrawLine (line : LineCommand) : List Call :=
  let (steep,⟨x1,y1,x2,y2⟩) := oriented line
  let dx := s32 (u32 ((x2 : Int) - x1))
  let dy := s32 (s32 y2 - s32 y1)
  let gradient := if dx ≠ 0 then (s32 (dy <<< FIXED_POINT_SHIFT)).tdiv dx else 0
  let (first,sy) := innerDrawLineEndpoint x1 y1 steep
  let (last,_) := innerDrawLineEndpoint x2 y2 steep
  let between := List.range' (x1 + 1) (x2 - (x1 + 1))
  first ++ last ++ (walk (pair steep) (fun currY => s32 (currY + gradient)) between (s32 (sy + gradient))).flatten

structure RawState where
  y : Int
  error : Int

-- s32 y_step = y1 < y2 ? 1 : -1
def yStep (y1 y2 : Nat) : Int := if y1 < y2 then 1 else -1

def rawTurn (dx dy yStep : Int) (state : RawState) : RawState :=
  let error := s32 (state.error - dy)
  if error < 0 then ⟨s32 (state.y + yStep),s32 (error + dx)⟩ else ⟨state.y,error⟩

def innerDrawRawLine (line : LineCommand) : List (Nat × Nat) :=
  let (steep,⟨x1,y1,x2,y2⟩) := oriented line
  let dx := s32 (u32 ((x2 : Int) - x1))
  let dy := abs (s32 (s32 y2 - s32 y1))
  walk (fun x state => place steep x (u32 state.y)) (rawTurn dx dy (yStep y1 y2)) (List.range' x1 (x2 + 1 - x1))
    ⟨s32 y1,dx.tdiv 2⟩

-- The assertions of set_pixel.
def InBounds (screen : Screen) (pixel : Nat × Nat) : Prop := pixel.1 < screen.width ∧ pixel.2 < screen.height

-- One pixel on along the major axis, at most one along the other.
def Moves (steep : Bool) (here next : Nat × Nat) : Prop :=
  if steep then next.2 = here.2 + 1 ∧ absDiff here.1 next.1 ≤ 1
  else next.1 = here.1 + 1 ∧ absDiff here.2 next.2 ≤ 1

structure Connects (a b : Nat × Nat) (calls : List (Nat × Nat)) : Prop where
  count : calls.length = max (absDiff a.1 b.1) (absDiff a.2 b.2) + 1
  ends : (calls.head? = some a ∧ calls.getLast? = some b) ∨ (calls.head? = some b ∧ calls.getLast? = some a)
  steps : calls.IsChain (Moves (decide (absDiff a.1 b.1 < absDiff a.2 b.2)))

-- Of the lines from one point to another the two calls admit.
structure Rasterizes (screen : Screen) (x1 y1 x2 y2 : Nat) : Prop where
  antialiased : ∀ line ∈ drawLine screen x1 y1 x2 y2,∀ call ∈ innerDrawLine line,InBounds screen call.1
  raw : ∀ line ∈ drawRawLine screen x1 y1 x2 y2,∀ pixel ∈ innerDrawRawLine line,InBounds screen pixel
  connected : ∀ line ∈ drawRawLine screen x1 y1 x2 y2,
    Connects (min x1 (screen.width - 2),min y1 (screen.height - 2))
      (min x2 (screen.width - 2),min y2 (screen.height - 2)) (innerDrawRawLine line)

theorem s32_small {v : Int} (low : -2147483648 ≤ v) (high : v < 2147483648) : s32 v = v := by
  rw [s32,Int.emod_eq_of_lt (by omega) (by omega)]
  omega

theorem u32_nat {n : Nat} (fits : n < 4294967296) : u32 n = n := by
  rw [u32]
  omega

theorem abs_small {v : Int} (low : -2147483648 < v) (high : v < 2147483648) : abs v = v.natAbs := by
  have shifted : v >>> (31 : Nat) = if 0 ≤ v then 0 else -1 := by
    rw [Int.shiftRight_eq_div_pow]
    split <;> omega
  rw [abs,shifted]
  rcases Int.eq_nat_or_neg v with ⟨n,rfl | rfl⟩
  · have unchanged : Int.xor n 0 = n := congrArg Int.ofNat (Nat.xor_zero n)
    rw [if_pos (by omega),unchanged,s32_small (by omega) (by omega)]
    omega
  · cases n with
    | zero => decide
    | succ n =>
        have flipped : Int.xor (-(n+1 : Nat)) (-1) = n := congrArg Int.ofNat (Nat.xor_zero n)
        rw [if_neg (by omega),flipped,s32_small (by omega) (by omega)]
        omega

theorem absDiff_eq (a b : Nat) : absDiff a b = (a - b) + (b - a) := by
  rw [absDiff]
  split <;> omega

theorem walk_range {σ β : Type} (plot : Nat → σ → β) (turn : σ → σ) (x n : Nat) (s : σ) :
    walk plot turn (List.range' x n) s = (List.range n).map fun k => plot (x + k) (turn^[k] s) := by
  induction n generalizing x s with
  | zero => rfl
  | succ n ih =>
      rw [List.range'_succ,walk,ih,List.range_succ_eq_map,List.map_cons,List.map_map]
      refine congrArg _ (List.map_congr_left fun k _ => ?_)
      rw [Function.comp_apply,Nat.succ_eq_add_one,Function.iterate_succ_apply,Nat.add_right_comm,Nat.add_assoc]


-- A clamped line leaves a column and a row free.
structure Clamped (screen : Screen) (line : LineCommand) : Prop where
  x1 : line.x1 + 2 ≤ screen.width
  y1 : line.y1 + 2 ≤ screen.height
  x2 : line.x2 + 2 ≤ screen.width
  y2 : line.y2 + 2 ≤ screen.height

-- What the swaps leave: a line to the right, no steeper than a diagonal.
structure Octant (screen : Screen) (line turned : LineCommand) (steep : Bool) : Prop where
  forwards : turned.x1 ≤ turned.x2
  flat : absDiff turned.y1 turned.y2 ≤ turned.x2 - turned.x1
  x2 : turned.x2 + 2 ≤ (place steep screen.width screen.height).1
  y1 : turned.y1 + 2 ≤ (place steep screen.width screen.height).2
  y2 : turned.y2 + 2 ≤ (place steep screen.width screen.height).2
  narrow : (place steep screen.width screen.height).1 ≤ 4194304
  short : (place steep screen.width screen.height).2 ≤ 4194304
  steeper : steep = decide (absDiff line.x1 line.x2 < absDiff line.y1 line.y2)
  length : turned.x2 - turned.x1 = max (absDiff line.x1 line.x2) (absDiff line.y1 line.y2)
  ends : (place steep turned.x1 turned.y1 = (line.x1,line.y1) ∧ place steep turned.x2 turned.y2 = (line.x2,line.y2)) ∨
    (place steep turned.x1 turned.y1 = (line.x2,line.y2) ∧ place steep turned.x2 turned.y2 = (line.x1,line.y1))

theorem oriented_octant {screen : Screen} {line : LineCommand} (clamped : Clamped screen line) :
    Octant screen line (oriented line).2 (oriented line).1 := by
  obtain ⟨x1,y1,x2,y2⟩ := line
  obtain ⟨left,low,right,high⟩ := clamped
  have wide := screen.width_range.2
  have tall := screen.height_range.2
  simp only [absDiff_eq] at left low right high
  by_cases steeper : absDiff x1 x2 < absDiff y1 y2
  · rw [absDiff_eq,absDiff_eq] at steeper
    by_cases back : y2 < y1
    · have turned : oriented ⟨x1,y1,x2,y2⟩ = (true,⟨y2,x2,y1,x1⟩) := by simp [oriented,absDiff_eq,steeper,back]
      rw [turned]
      constructor <;> simp only [place,absDiff_eq,if_true] <;> grind
    · have turned : oriented ⟨x1,y1,x2,y2⟩ = (true,⟨y1,x1,y2,x2⟩) := by simp [oriented,absDiff_eq,steeper,back]
      rw [turned]
      constructor <;> simp only [place,absDiff_eq,if_true] <;> grind
  · rw [absDiff_eq,absDiff_eq] at steeper
    by_cases back : x2 < x1
    · have turned : oriented ⟨x1,y1,x2,y2⟩ = (false,⟨x2,y2,x1,y1⟩) := by simp [oriented,absDiff_eq,steeper,back]
      rw [turned]
      constructor <;> simp only [place,absDiff_eq,Bool.false_eq_true,if_false] <;> grind
    · have turned : oriented ⟨x1,y1,x2,y2⟩ = (false,⟨x1,y1,x2,y2⟩) := by simp [oriented,absDiff_eq,steeper,back]
      rw [turned]
      constructor <;> simp only [place,absDiff_eq,Bool.false_eq_true,if_false] <;> grind

theorem place_inside {screen : Screen} {steep : Bool} {x y : Nat} (column : x < (place steep screen.width screen.height).1)
    (row : y < (place steep screen.width screen.height).2) : InBounds screen (place steep x y) := by
  cases steep with
  | false => exact ⟨column,row⟩
  | true => exact ⟨row,column⟩


-- The error term in whole numbers: after k columns and so many rows, e is left.
structure Tracks (dx dy k rows e : Nat) : Prop where
  balance : e + k * dy = dx / 2 + rows * dx
  below : 0 < dx → e < dx
  within : rows ≤ k

theorem Tracks.rows_le {dx dy k rows e : Nat} (tracks : Tracks dx dy k rows e) (flat : dy ≤ dx) (inside : k ≤ dx) :
    rows ≤ dy := by
  by_contra more
  rcases Nat.eq_zero_or_pos dx with none | some
  · have few := tracks.within
    omega
  · have balance := tracks.balance
    have below := tracks.below some
    have columns : k * dy ≤ dx * dy := Nat.mul_le_mul_right dy inside
    have rows : (dy + 1) * dx ≤ rows * dx := Nat.mul_le_mul_right dx (by omega)
    rw [Nat.add_mul,Nat.one_mul,Nat.mul_comm dy] at rows
    omega

-- In the last column the line is in its last row.
theorem Tracks.arrives {dx dy rows e : Nat} (tracks : Tracks dx dy dx rows e) (flat : dy ≤ dx) : rows = dy := by
  have most := tracks.rows_le flat (Nat.le_refl dx)
  rcases Nat.eq_zero_or_pos dx with none | some
  · omega
  · by_contra different
    have balance := tracks.balance
    have rows : (rows + 1) * dx ≤ dy * dx := Nat.mul_le_mul_right dx (by omega)
    rw [Nat.add_mul,Nat.one_mul,Nat.mul_comm dy] at rows
    omega

theorem Tracks.level {dx dy k rows e : Nat} (tracks : Tracks dx dy k rows e) (enough : dy ≤ e) :
    Tracks dx dy (k+1) rows (e - dy) := by
  refine ⟨?_,fun some => ?_,Nat.le_succ_of_le tracks.within⟩
  · have balance := tracks.balance
    rw [Nat.add_mul,Nat.one_mul]
    omega
  · have below := tracks.below some
    omega

theorem Tracks.climb {dx dy k rows e : Nat} (tracks : Tracks dx dy k rows e) (flat : dy ≤ dx) (spent : e < dy) :
    Tracks dx dy (k+1) (rows+1) (e + dx - dy) := by
  refine ⟨?_,fun some => ?_,Nat.succ_le_succ tracks.within⟩
  · have balance := tracks.balance
    rw [Nat.add_mul,Nat.one_mul,Nat.add_mul,Nat.one_mul]
    omega
  · have below := tracks.below some
    omega

-- The row so many rows away from the first, towards the second.
def rowAt (y1 y2 rows : Nat) : Nat := if y1 < y2 then y1 + rows else y1 - rows

section raw
variable {y1 y2 dx : Nat}

theorem rowAt_le {rows : Nat} (inside : rows ≤ absDiff y1 y2) : rowAt y1 y2 rows ≤ max y1 y2 := by
  rw [absDiff_eq] at inside
  rw [rowAt]
  split <;> omega

theorem rawStart_eq (first : y1 < 4194304) : (⟨s32 y1,(dx : Int).tdiv 2⟩ : RawState) =
    ⟨(rowAt y1 y2 0 : Nat),(dx / 2 : Nat)⟩ := by
  have half : (dx : Int).tdiv 2 = (dx / 2 : Nat) := rfl
  rw [half,s32_small (by omega) (by omega),rowAt,Nat.add_zero,Nat.sub_zero,ite_self]

theorem rawTurn_level {e rows : Nat} (narrow : dx < 4194304) (flat : absDiff y1 y2 ≤ dx) (small : e ≤ dx)
    (enough : absDiff y1 y2 ≤ e) : rawTurn dx (absDiff y1 y2 : Nat) (yStep y1 y2) ⟨(rowAt y1 y2 rows : Nat),e⟩ =
      ⟨(rowAt y1 y2 rows : Nat),(e - absDiff y1 y2 : Nat)⟩ := by
  have left : s32 ((e : Int) - (absDiff y1 y2 : Nat)) = (e - absDiff y1 y2 : Nat) := by
    rw [s32_small (by omega) (by omega)]
    omega
  rw [rawTurn,left,if_neg (by omega)]

theorem rawTurn_climb {e rows : Nat} (narrow : dx < 4194304) (first : y1 < 4194304) (second : y2 < 4194304)
    (flat : absDiff y1 y2 ≤ dx) (spent : e < absDiff y1 y2) (inside : rows < absDiff y1 y2) :
    rawTurn dx (absDiff y1 y2 : Nat) (yStep y1 y2) ⟨(rowAt y1 y2 rows : Nat),e⟩ =
      ⟨(rowAt y1 y2 (rows+1) : Nat),(e + dx - absDiff y1 y2 : Nat)⟩ := by
  have left : s32 ((e : Int) - (absDiff y1 y2 : Nat)) = (e : Int) - (absDiff y1 y2 : Nat) :=
    s32_small (by omega) (by omega)
  have row : s32 ((rowAt y1 y2 rows : Nat) + yStep y1 y2) = (rowAt y1 y2 (rows+1) : Nat) := by
    rw [absDiff_eq] at inside
    rw [rowAt,rowAt,yStep]
    split <;> rw [s32_small (by omega) (by omega)] <;> omega
  rw [rawTurn,left,if_pos (by omega),row,s32_small (by omega) (by omega)]
  refine congrArg _ ?_
  omega

-- The loop's state after k columns.
def rawState (y1 y2 dx k : Nat) : RawState :=
  (rawTurn dx (absDiff y1 y2 : Nat) (yStep y1 y2))^[k] ⟨s32 y1,(dx : Int).tdiv 2⟩

theorem rawState_next (k : Nat) : rawState y1 y2 dx (k+1) =
    rawTurn dx (absDiff y1 y2 : Nat) (yStep y1 y2) (rawState y1 y2 dx k) := Function.iterate_succ_apply' _ _ _

theorem raw_tracks (narrow : dx < 4194304) (first : y1 < 4194304) (second : y2 < 4194304)
    (flat : absDiff y1 y2 ≤ dx) (k : Nat) (inside : k ≤ dx) : ∃ rows e,Tracks dx (absDiff y1 y2) k rows e ∧
      rawState y1 y2 dx k = ⟨(rowAt y1 y2 rows : Nat),e⟩ := by
  induction k with
  | zero =>
      have balance : dx / 2 + 0 * absDiff y1 y2 = dx / 2 + 0 * dx := by omega
      exact ⟨0,dx / 2,⟨balance,fun some => by omega,Nat.le_refl 0⟩,rawStart_eq first⟩
  | succ k ih =>
      obtain ⟨rows,e,tracks,state⟩ := ih (by omega)
      have below := tracks.below (by omega)
      by_cases spent : e < absDiff y1 y2
      · have climbed := tracks.climb flat spent
        have most := climbed.rows_le flat inside
        exact ⟨rows+1,_,climbed,by rw [rawState_next,state,rawTurn_climb narrow first second flat spent most]⟩
      · exact ⟨rows,_,tracks.level (by omega),
          by rw [rawState_next,state,rawTurn_level narrow flat (by omega) (by omega)]⟩

theorem u32_row {rows : Nat} (first : y1 < 4194304) (second : y2 < 4194304) (inside : rows ≤ absDiff y1 y2) :
    u32 (rowAt y1 y2 rows : Nat) = rowAt y1 y2 rows := by
  have row := rowAt_le inside
  exact u32_nat (by omega)

-- A turn stays in its row or goes to the next.
theorem raw_moves (narrow : dx < 4194304) (first : y1 < 4194304) (second : y2 < 4194304)
    (flat : absDiff y1 y2 ≤ dx) (k : Nat) (inside : k < dx) :
    absDiff (u32 (rawState y1 y2 dx k).y) (u32 (rawState y1 y2 dx (k+1)).y) ≤ 1 := by
  obtain ⟨rows,e,tracks,state⟩ := raw_tracks narrow first second flat k (by omega)
  have below := tracks.below (by omega)
  have here := u32_row first second (tracks.rows_le flat (by omega))
  rw [rawState_next,state]
  by_cases spent : e < absDiff y1 y2
  · have most := (tracks.climb flat spent).rows_le flat inside
    rw [rawTurn_climb narrow first second flat spent most,here,u32_row first second most,absDiff_eq,rowAt,rowAt]
    split <;> omega
  · rw [rawTurn_level narrow flat (by omega) (by omega),absDiff_eq,Nat.sub_self]
    exact Nat.zero_le 1

theorem raw_inside (narrow : dx < 4194304) (first : y1 < 4194304) (second : y2 < 4194304)
    (flat : absDiff y1 y2 ≤ dx) (k : Nat) (inside : k ≤ dx) : u32 (rawState y1 y2 dx k).y ≤ max y1 y2 := by
  obtain ⟨rows,e,tracks,state⟩ := raw_tracks narrow first second flat k inside
  rw [state,u32_row first second (tracks.rows_le flat inside)]
  exact rowAt_le (tracks.rows_le flat inside)

theorem raw_first (first : y1 < 4194304) : u32 (rawState y1 y2 dx 0).y = y1 := by
  rw [rawState,Function.iterate_zero_apply,s32_small (by omega) (by omega),u32_nat (by omega)]

theorem raw_last (narrow : dx < 4194304) (first : y1 < 4194304) (second : y2 < 4194304)
    (flat : absDiff y1 y2 ≤ dx) : u32 (rawState y1 y2 dx dx).y = y2 := by
  obtain ⟨rows,e,tracks,state⟩ := raw_tracks narrow first second flat dx (Nat.le_refl dx)
  have last : rowAt y1 y2 rows = y2 := by
    rw [tracks.arrives flat,absDiff_eq,rowAt]
    split <;> omega
  rw [state,last,u32_nat (by omega)]

end raw


section antialiased
variable {y1 y2 dx : Nat}

-- (dy << FIXED_POINT_SHIFT) / dx, which rounds towards zero.
def gradient (y1 y2 dx : Nat) : Int := (((y2 : Int) - y1) * 256).tdiv dx

theorem gradient_up (up : y1 ≤ y2) (k : Nat) (inside : k ≤ dx) :
    0 ≤ k * gradient y1 y2 dx ∧ k * gradient y1 y2 dx ≤ (y2 - y1 : Int) * 256 := by
  have rise : (0 : Int) ≤ ((y2 : Int) - y1) * 256 := by omega
  rw [gradient,Int.tdiv_eq_ediv_of_nonneg rise]
  have positive : (0 : Int) ≤ ((y2 : Int) - y1) * 256 / dx := Int.ediv_nonneg rise (Int.natCast_nonneg dx)
  refine ⟨Int.mul_nonneg (Int.natCast_nonneg k) positive,?_⟩
  rcases Nat.eq_zero_or_pos dx with rfl | some
  · rw [Int.natCast_zero,Int.ediv_zero,Int.mul_zero]
    exact rise
  · calc (k : Int) * (((y2 : Int) - y1) * 256 / dx)
      _ ≤ dx * (((y2 : Int) - y1) * 256 / dx) := Int.mul_le_mul_of_nonneg_right (by omega) positive
      _ ≤ ((y2 : Int) - y1) * 256 := Int.mul_ediv_self_le (by omega)

theorem gradient_neg : gradient y1 y2 dx = -gradient y2 y1 dx := by
  have negated : ((y2 : Int) - y1) * 256 = -(((y1 : Int) - y2) * 256) := by ring
  rw [gradient,gradient,negated,Int.neg_tdiv]

-- The accumulated row never leaves the rows of the two ends.
theorem gradient_range (y1 y2 k : Nat) (inside : k ≤ dx) : (min y1 y2 : Nat) * 256 ≤ (y1 : Int) * 256 + k * gradient y1 y2 dx ∧
    (y1 : Int) * 256 + k * gradient y1 y2 dx ≤ (max y1 y2 : Nat) * 256 := by
  rcases Nat.le_total y1 y2 with up | down
  · have range := gradient_up up k inside
    rw [Nat.min_eq_left up,Nat.max_eq_right up]
    omega
  · have range := gradient_up down k inside
    rw [gradient_neg,Int.mul_neg,Nat.min_eq_right down,Nat.max_eq_left down]
    omega

theorem gradient_fits (first : y1 < 4194304) (second : y2 < 4194304) (k : Nat) (inside : k ≤ dx) :
    s32 ((y1 : Int) * 256 + k * gradient y1 y2 dx) = (y1 : Int) * 256 + k * gradient y1 y2 dx := by
  have range := gradient_range y1 y2 k inside
  exact s32_small (by omega) (by omega)

theorem curr_y (first : y1 < 4194304) (second : y2 < 4194304) (k : Nat) (inside : k + 1 ≤ dx) :
    (fun currY => s32 (currY + gradient y1 y2 dx))^[k] (s32 ((y1 : Int) * 256 + gradient y1 y2 dx)) =
      (y1 : Int) * 256 + (k+1 : Nat) * gradient y1 y2 dx := by
  induction k with
  | zero =>
      have one := gradient_fits first second 1 inside
      rw [Nat.cast_one,Int.one_mul] at one
      rw [Function.iterate_zero_apply,one,Nat.zero_add,Nat.cast_one,Int.one_mul]
  | succ k ih =>
      have sum : (y1 : Int) * 256 + (k+1 : Nat) * gradient y1 y2 dx + gradient y1 y2 dx =
          (y1 : Int) * 256 + (k+1+1 : Nat) * gradient y1 y2 dx := by push_cast; ring
      rw [Function.iterate_succ_apply',ih (by omega),sum,gradient_fits first second _ inside]

end antialiased

theorem pair_inside {screen : Screen} {steep : Bool} {x row : Nat} {fixed : Int}
    (column : x < (place steep screen.width screen.height).1) (rows : row + 2 ≤ (place steep screen.width screen.height).2)
    (narrow : row < 4194304) (low : 0 ≤ fixed) (high : fixed ≤ row * 256) :
    ∀ call ∈ pair steep x fixed,InBounds screen call.1 := by
  have floor : fixedPointFloor fixed = fixed / 256 := Int.shiftRight_eq_div_pow fixed 8
  intro call member
  rw [pair,floor] at member
  rcases List.mem_cons.mp member with rfl | member
  · refine place_inside column ?_
    rw [u32]
    omega
  · obtain rfl := List.mem_singleton.mp member
    refine place_inside column ?_
    rw [s32_small (by omega) (by omega),u32]
    omega

theorem endpoint_fixed {y : Nat} (small : y < 4194304) : s32 (s32 y <<< FIXED_POINT_SHIFT) = (y : Int) * 256 := by
  have shifted : (y : Int) <<< FIXED_POINT_SHIFT = y * 256 := Int.shiftLeft_eq y 8
  rw [s32_small (v:=y) (by omega) (by omega),shifted,s32_small (by omega) (by omega)]

theorem gradient_eq {y1 y2 dx : Nat} (first : y1 < 4194304) (second : y2 < 4194304) (narrow : dx < 4194304) :
    (if s32 (u32 (dx : Int)) ≠ 0 then (s32 (s32 (s32 y2 - s32 y1) <<< FIXED_POINT_SHIFT)).tdiv (s32 (u32 (dx : Int))) else 0) =
      gradient y1 y2 dx := by
  have shifted : ((y2 : Int) - y1) <<< FIXED_POINT_SHIFT = ((y2 : Int) - y1) * 256 := Int.shiftLeft_eq _ 8
  have columns : s32 (u32 (dx : Int)) = dx := by rw [u32_nat (by omega),s32_small (by omega) (by omega)]
  rw [columns,s32_small (v:=y1) (by omega) (by omega),s32_small (v:=y2) (by omega) (by omega),
    s32_small (v:=(y2 : Int) - y1) (by omega) (by omega),shifted,s32_small (by omega) (by omega)]
  split
  · rfl
  · rename_i none
    have zero : dx = 0 := by omega
    rw [gradient,zero,Int.natCast_zero,Int.tdiv_zero]


section lines
variable {screen : Screen} {line turned : LineCommand} {steep : Bool}

theorem Octant.columns (octant : Octant screen line turned steep) :
    (turned.x2 : Int) - turned.x1 = (turned.x2 - turned.x1 : Nat) := by
  have forwards := octant.forwards
  omega

theorem Octant.bounds (octant : Octant screen line turned steep) :
    turned.x2 < 4194304 ∧ turned.y1 < 4194304 ∧ turned.y2 < 4194304 := by
  obtain ⟨forwards,flat,x2,y1,y2,narrow,short,_⟩ := octant
  omega

theorem drawLine_clamped {x1 y1 x2 y2 : Nat} (admitted : drawLine screen x1 y1 x2 y2 = some line) :
    Clamped screen line := by
  have wide := screen.width_range.1
  have tall := screen.height_range.1
  rw [drawLine,if_neg (by omega)] at admitted
  split at admitted
  · cases admitted
  · split at admitted
    · cases admitted
    · cases admitted
      constructor <;> dsimp only <;> omega

theorem drawRawLine_clamped {x1 y1 x2 y2 : Nat} (admitted : drawRawLine screen x1 y1 x2 y2 = some line) :
    line = ⟨min x1 (screen.width - 2),min y1 (screen.height - 2),min x2 (screen.width - 2),min y2 (screen.height - 2)⟩ ∧
      Clamped screen line := by
  have wide := screen.width_range.1
  have tall := screen.height_range.1
  rw [drawRawLine] at admitted
  split at admitted
  · cases admitted
  · split at admitted
    · cases admitted
    · cases admitted
      refine ⟨rfl,?_⟩
      constructor <;> dsimp only <;> omega

theorem innerDrawRawLine_eq (octant : Octant screen line turned steep) (swapped : oriented line = (steep,turned)) :
    innerDrawRawLine line = (List.range (turned.x2 - turned.x1 + 1)).map fun k =>
      place steep (turned.x1 + k) (u32 (rawState turned.y1 turned.y2 (turned.x2 - turned.x1) k).y) := by
  obtain ⟨right,first,second⟩ := octant.bounds
  have rise : abs (s32 (s32 turned.y2 - s32 turned.y1)) = (absDiff turned.y1 turned.y2 : Nat) := by
    rw [s32_small (v:=turned.y1) (by omega) (by omega),s32_small (v:=turned.y2) (by omega) (by omega),
      s32_small (by omega) (by omega),abs_small (by omega) (by omega),absDiff_eq]
    omega
  have run : s32 (u32 ((turned.x2 : Int) - turned.x1)) = (turned.x2 - turned.x1 : Nat) := by
    rw [octant.columns,u32_nat (by omega),s32_small (by omega) (by omega)]
  have columns : turned.x2 + 1 - turned.x1 = turned.x2 - turned.x1 + 1 := by
    have forwards := octant.forwards
    omega
  rw [innerDrawRawLine,swapped]
  dsimp only
  rw [rise,run,columns,walk_range]
  rfl

theorem raw_in_bounds (clamped : Clamped screen line) : ∀ pixel ∈ innerDrawRawLine line,InBounds screen pixel := by
  have octant := oriented_octant clamped
  obtain ⟨right,first,second⟩ := octant.bounds
  rw [innerDrawRawLine_eq octant rfl]
  intro pixel member
  obtain ⟨k,inside,rfl⟩ := List.mem_map.mp member
  have column := List.mem_range.mp inside
  have row := raw_inside (by omega) first second octant.flat k (by omega)
  have forwards := octant.forwards
  have last := octant.x2
  have rows := octant.y1
  have rows' := octant.y2
  exact place_inside (by omega) (by omega)

theorem raw_connects (clamped : Clamped screen line) :
    Connects (line.x1,line.y1) (line.x2,line.y2) (innerDrawRawLine line) := by
  have octant := oriented_octant clamped
  obtain ⟨right,first,second⟩ := octant.bounds
  have forwards := octant.forwards
  have flat := octant.flat
  have calls := innerDrawRawLine_eq octant rfl
  rw [calls]
  generalize dx_eq : (oriented line).2.x2 - (oriented line).2.x1 = dx at flat
  refine ⟨?_,?_,?_⟩
  · rw [List.length_map,List.length_range,← octant.length,dx_eq]
  · have head : (oriented line).2.x1 + 0 = (oriented line).2.x1 := Nat.add_zero _
    have last : (oriented line).2.x1 + dx = (oriented line).2.x2 := by omega
    rw [List.head?_map,List.getLast?_map,List.getLast?_range,if_neg (Nat.succ_ne_zero dx),Nat.add_sub_cancel,
      List.head?_range,if_neg (Nat.succ_ne_zero dx),Option.map_some,Option.map_some,raw_first first,
      raw_last (by omega) first second flat,head,last]
    rcases octant.ends with ⟨one,two⟩ | ⟨one,two⟩
    · exact .inl ⟨congrArg some one,congrArg some two⟩
    · exact .inr ⟨congrArg some one,congrArg some two⟩
  · rw [List.isChain_map,List.isChain_range_succ]
    intro k inside
    have close := raw_moves (by omega) first second flat k inside
    rw [← octant.steeper]
    cases (oriented line).1 with
    | false => exact ⟨rfl,close⟩
    | true => exact ⟨rfl,close⟩

theorem line_in_bounds (clamped : Clamped screen line) : ∀ call ∈ innerDrawLine line,InBounds screen call.1 := by
  have octant := oriented_octant clamped
  obtain ⟨right,first,second⟩ := octant.bounds
  have forwards := octant.forwards
  have flat := octant.flat
  have columns := octant.x2
  have rows := octant.y1
  have rows' := octant.y2
  generalize swapped : oriented line = pair at *
  obtain ⟨steep,x1,y1,x2,y2⟩ := pair
  have run : (x2 : Int) - x1 = (x2 - x1 : Nat) := octant.columns
  dsimp only at *
  rw [innerDrawLine,swapped]
  dsimp only [innerDrawLineEndpoint]
  rw [run,gradient_eq first second (by omega),endpoint_fixed first,endpoint_fixed second,walk_range]
  intro call member
  rcases List.mem_append.mp member with member | member
  · rcases List.mem_append.mp member with member | member
    · exact pair_inside (by omega) rows first (by omega) (by omega) call member
    · exact pair_inside (by omega) rows' second (by omega) (by omega) call member
  · obtain ⟨calls,column,member⟩ := List.mem_flatten.mp member
    obtain ⟨k,inside,rfl⟩ := List.mem_map.mp column
    have before := List.mem_range.mp inside
    have reached : k + 1 ≤ x2 - x1 := by omega
    have range := gradient_range y1 y2 (k+1) reached
    rw [curr_y first second k reached] at member
    have highest : max y1 y2 + 2 ≤ (place steep screen.width screen.height).2 := by omega
    exact pair_inside (by omega) highest (by omega) (by omega) (by omega) call member

end lines

theorem line_rasterized (screen : Screen) (x1 y1 x2 y2 : Nat) : Rasterizes screen x1 y1 x2 y2 where
  antialiased line admitted := line_in_bounds (drawLine_clamped admitted)
  raw line admitted := raw_in_bounds (drawRawLine_clamped admitted).2
  connected line admitted := by
    obtain ⟨same,clamped⟩ := drawRawLine_clamped admitted
    have connects := raw_connects clamped
    rw [same] at connects ⊢
    exact connects

end LineRasterization
