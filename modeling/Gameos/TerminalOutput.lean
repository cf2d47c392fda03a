import Gameos.TextLayout

-- gameos/term.hh: the terminal, a backend that prints characters on the screen.
namespace TerminalOutput
open ClippedRectangles (Screen u32)
open TextGrid TextLayout

def defaultPadding : Nat := 10

structure TerminalState where
  currentCol : Nat
  currentRow : Nat
deriving DecidableEq

-- What initialize sets.
def cleared : TerminalState := ⟨0,0⟩

def nextLine (state : TerminalState) : TerminalState := ⟨0,u32 (state.currentRow + 1)⟩

def maxCols (screen : Screen) : Nat := u32 (screen.width + (4294967296 - 2 * defaultPadding)) / glyphWidth

inductive Call where
  | putChar (c : UInt8)
  | newLine

-- The character that does what the call does.
def Call.character : Call → UInt8
  | .putChar c => c
  | .newLine => newline

section Output
variable {γ : Type} (screen : Screen) (font : Nat → Nat → UInt8) (fg bg : γ)

-- The state after a call, and the calls of set_pixel it makes.
def Call.run (state : TerminalState) : Call → Option (TerminalState × List ((Nat × Nat) × γ))
  | .newLine => some (nextLine state,[])
  | .putChar c =>
    if c = newline then some (nextLine state,[])
    else
      let placed := if maxCols screen ≤ state.currentCol then nextLine state else state
      let x := u32 (defaultPadding + u32 (placed.currentCol * glyphWidth))
      let y := u32 (defaultPadding + u32 (placed.currentRow * glyphHeight))
      (innerDrawChar screen font fg bg x y c).map fun glyph => (⟨u32 (placed.currentCol + 1),placed.currentRow⟩,glyph)

def printed : List Call → TerminalState → Option (TerminalState × List ((Nat × Nat) × γ))
  | [],state => some (state,[])
  | call :: calls,state => do
    let step ← call.run screen font fg bg state
    let later ← printed calls step.1
    return (later.1,step.2 ++ later.2)

end Output

section Grid
variable {γ : Type} {screen : Screen} {font : Nat → Nat → UInt8} {fg bg : γ}

theorem columns_padded (wide : 2 * defaultPadding ≤ screen.width) :
    maxCols screen = (screen.width - 2 * defaultPadding) / glyphWidth ∧
      defaultPadding + glyphWidth * maxCols screen + defaultPadding ≤ screen.width := by
  have fits := screen.width_fits
  have whole : u32 (screen.width + (4294967296 - 2 * defaultPadding)) = screen.width - 2 * defaultPadding := by
    unfold u32 defaultPadding at *
    omega
  unfold maxCols
  rw [whole]
  refine ⟨rfl,?_⟩
  simp only [defaultPadding,glyphWidth] at *
  omega

def stateAt (p : Nat × Nat) : TerminalState := ⟨p.1,p.2⟩

theorem nextLine_at {p : Nat × Nat} (small : p.2 + 1 < 4294967296) : nextLine (stateAt p) = stateAt (0,p.2 + 1) := by
  unfold nextLine stateAt
  rw [show u32 (p.2 + 1) = p.2 + 1 from Nat.mod_eq_of_lt small]

theorem run_newline {call : Call} (ends : call.character = newline) (state : TerminalState) :
    call.run screen font fg bg state = some (nextLine state,[]) := by
  cases call with
  | newLine => rfl
  | putChar c => exact if_pos ends

-- Without a wrap the glyph of a place is at its column and row.
theorem run_glyph {c : UInt8} {p q : Nat × Nat} (other : c ≠ newline)
    (placed : (if maxCols screen ≤ p.1 then nextLine (stateAt p) else stateAt p) = stateAt q)
    (right : defaultPadding + glyphWidth * (q.1 + 1) < 4294967296) (bottom : defaultPadding + glyphHeight * (q.2 + 1) < 4294967296) :
    (Call.putChar c).run screen font fg bg (stateAt p) =
      (innerDrawChar screen font fg bg (defaultPadding + glyphWidth * q.1) (defaultPadding + glyphHeight * q.2) c).map fun glyph =>
        (stateAt (q.1 + 1,q.2),glyph) := by
  have x : u32 (defaultPadding + u32 (q.1 * glyphWidth)) = defaultPadding + glyphWidth * q.1 := by
    unfold u32
    simp only [defaultPadding,glyphWidth] at *
    omega
  have y : u32 (defaultPadding + u32 (q.2 * glyphHeight)) = defaultPadding + glyphHeight * q.2 := by
    unfold u32
    simp only [defaultPadding,glyphHeight] at *
    omega
  have column : u32 (q.1 + 1) = q.1 + 1 := by
    refine Nat.mod_eq_of_lt ?_
    simp only [defaultPadding,glyphWidth] at *
    omega
  rw [Call.run,if_neg other,show (stateAt p).currentCol = p.1 from rfl,placed]
  dsimp only [stateAt]
  rw [x,y,column]

-- A full row is left before the glyph is placed.
theorem place_state {columns : Nat} {p : Nat × Nat} (bottom : defaultPadding + glyphHeight * ((place columns p).2 + 1) < 4294967296) :
    (if columns ≤ p.1 then nextLine (stateAt p) else stateAt p) = stateAt (place columns p) := by
  unfold place at *
  by_cases full : columns ≤ p.1
  · rw [if_pos full] at bottom ⊢
    rw [if_pos full]
    refine nextLine_at ?_
    simp only [defaultPadding,glyphHeight] at bottom
    omega
  · rw [if_neg full,if_neg full]

-- A call moves on the grid as its character does, and draws it there. The number of columns is a
-- variable, since the kernel would count up to 2^32 where it computes maxCols.
theorem run_grid (screen : Screen) (font : Nat → Nat → UInt8) (fg bg : γ) {columns : Nat} (same : maxCols screen = columns)
    (padded : defaultPadding + glyphWidth * columns + defaultPadding ≤ screen.width) (call : Call) (p : Nat × Nat)
    (bottom : defaultPadding + glyphHeight * ((next newline columns call.character p).2 + 1) < 4294967296) :
    call.run screen font fg bg (stateAt p) =
      if call.character = newline then some (stateAt (next newline columns call.character p),[])
      else (innerDrawChar screen font fg bg (defaultPadding + glyphWidth * (place columns p).1)
        (defaultPadding + glyphHeight * (place columns p).2) call.character).map fun glyph =>
          (stateAt (next newline columns call.character p),glyph) := by
  have fits := screen.width_fits
  have within := place_within columns p
  by_cases newLine : call.character = newline
  · rw [next_newline newLine] at bottom ⊢
    rw [if_pos newLine,run_newline newLine,nextLine_at]
    simp only [defaultPadding,glyphHeight] at bottom
    omega
  · rw [next_other newLine] at bottom ⊢
    rw [if_neg newLine]
    cases call with
    | newLine => exact absurd rfl newLine
    | putChar c =>
        refine run_glyph newLine ?_ ?_ bottom
        · rw [same]
          exact place_state bottom
        · simp only [defaultPadding,glyphWidth] at *
          omega

-- A run of calls is the text of their characters.
theorem printed_grid (wide : 2 * defaultPadding ≤ screen.width) (calls : List Call) (p : Nat × Nat)
    (bottom : defaultPadding + glyphHeight * ((ends newline (maxCols screen) (calls.map Call.character) p).2 + 1) < 4294967296) :
    printed screen font fg bg calls (stateAt p) =
      (drawGlyphs screen font fg bg defaultPadding defaultPadding (cells newline (maxCols screen) (calls.map Call.character) p)).map
        fun pixels => (stateAt (ends newline (maxCols screen) (calls.map Call.character) p),pixels) := by
  induction calls generalizing p with
  | nil => rfl
  | cons call calls ih =>
      have ahead := ends_ahead newline (maxCols screen) (calls.map Call.character) (next newline (maxCols screen) call.character p)
      have step := run_grid screen font fg bg rfl (columns_padded wide).2 call p (by
        rw [List.map_cons,ends_cons] at bottom
        simp only [defaultPadding,glyphHeight] at *
        omega)
      rw [List.map_cons,ends_cons] at bottom ⊢
      rw [printed,step,cells]
      by_cases newLine : call.character = newline
      · rw [if_pos newLine,if_pos newLine,Option.bind_eq_bind,Option.bind_some,ih _ bottom]
        cases drawGlyphs screen font fg bg defaultPadding defaultPadding
          (cells newline (maxCols screen) (calls.map Call.character) (next newline (maxCols screen) call.character p)) with
        | none => rfl
        | some later => rfl
      · rw [if_neg newLine,if_neg newLine,drawGlyphs_cons]
        dsimp only
        cases innerDrawChar screen font fg bg (defaultPadding + glyphWidth * (place (maxCols screen) p).1)
          (defaultPadding + glyphHeight * (place (maxCols screen) p).2) call.character with
        | none => rfl
        | some glyph =>
            rw [Option.map_some,Option.bind_eq_bind,Option.bind_some,ih _ bottom]
            cases drawGlyphs screen font fg bg defaultPadding defaultPadding
              (cells newline (maxCols screen) (calls.map Call.character) (next newline (maxCols screen) call.character p)) with
            | none => rfl
            | some later => rfl

end Grid

section Terminal
variable {γ : Type}

-- Since it was cleared the terminal has the text of all calls, in rows of maxCols characters between
-- the margins: what is printed later never goes over it, and the lines below the screen are not seen.
theorem terminal_laid_out (screen : Screen) (font : Nat → Nat → UInt8) (fg bg : γ) (calls : List Call)
    (wide : 2 * defaultPadding ≤ screen.width)
    (few : defaultPadding + glyphHeight * totalRows (maxCols screen) ((calls.map Call.character).splitOn newline) < 4294967296) :
    (printed screen font fg bg calls cleared = none ↔ ∃ call ∈ calls,glyphCount ≤ call.character.toNat) ∧
      ∀ last pixels,printed screen font fg bg calls cleared = some (last,pixels) →
        last.currentRow + 1 = totalRows (maxCols screen) ((calls.map Call.character).splitOn newline) ∧
        Paints screen font fg bg defaultPadding defaultPadding
          (layout (maxCols screen) 0 ((calls.map Call.character).splitOn newline)) pixels ∧
        (2 * defaultPadding + glyphWidth ≤ screen.width → ∀ pixel ∈ pixels,
          defaultPadding ≤ pixel.1.1 ∧ pixel.1.1 + defaultPadding < screen.width) := by
  obtain ⟨columns,padded⟩ := columns_padded wide
  have fits := screen.width_fits
  obtain ⟨same,lastRow⟩ := cells_layout newline (maxCols screen) 0 (calls.map Call.character)
  rw [Nat.zero_add] at lastRow
  have start : cleared = stateAt (0,0) := rfl
  rw [start,printed_grid wide calls (0,0) (by rw [lastRow]; exact few),← same]
  constructor
  · rw [Option.map_eq_none_iff,drawGlyphs_fails]
    refine (exists_cell (fun c : UInt8 => glyphCount ≤ c.toNat) _ (0,0)).trans ?_
    constructor
    · rintro ⟨c,here,_,missing⟩
      obtain ⟨call,member,rfl⟩ := List.mem_map.mp here
      exact ⟨call,member,missing⟩
    · rintro ⟨call,member,missing⟩
      refine ⟨call.character,List.mem_map_of_mem member,fun ends => ?_,missing⟩
      rw [ends] at missing
      exact absurd missing (by decide)
  · intro last pixels result
    obtain ⟨glyphs,drawn,equal⟩ := Option.map_eq_some_iff.mp result
    cases equal
    have paints : Paints screen font fg bg defaultPadding defaultPadding
        (cells newline (maxCols screen) (calls.map Call.character) (0,0)) pixels := by
      rw [drawGlyphs_drawn drawn]
      refine cells_paint (cells_ordered _ _) (fun cell here => ?_) fun cell here => ?_
      · have within := cells_within _ _ cell here
        simp only [defaultPadding,glyphWidth] at *
        omega
      · have above := cells_above _ _ cell here
        simp only [defaultPadding,glyphHeight] at *
        omega
    refine ⟨lastRow,paints,fun one pixel here => ?_⟩
    obtain ⟨cell,member,col,inside,row,_,at_cell,_⟩ := (paints.exact pixel).mp here
    have within := cells_within _ _ cell member
    rw [at_cell]
    rw [← columns] at *
    simp only [defaultPadding,glyphWidth] at *
    omega

-- Three columns: a new line, then a line that goes on in the next row.
theorem terminal_laid_out_narrow : ∃ last pixels,
    printed ⟨45,60,by decide,by decide⟩ (fun _ _ => 170) true false
        [.putChar 72,.newLine,.putChar 97,.putChar 98,.putChar 99,.putChar 100] cleared = some (last,pixels) ∧
      last.currentRow = 2 ∧ Paints ⟨45,60,by decide,by decide⟩ (fun _ _ => 170) true false 10 10
        [(72,(0,0)),(97,(0,1)),(98,(1,1)),(99,(2,1)),(100,(0,2))] pixels := by
  obtain ⟨fails,shows⟩ := terminal_laid_out ⟨45,60,by decide,by decide⟩ (fun _ _ => 170) true false
    [.putChar 72,.newLine,.putChar 97,.putChar 98,.putChar 99,.putChar 100] (by decide) (by decide +kernel)
  obtain ⟨⟨last,pixels⟩,drawn⟩ := Option.ne_none_iff_exists'.mp (mt fails.mp (by decide))
  obtain ⟨row,paints,_⟩ := shows last pixels drawn
  exact ⟨last,pixels,drawn,Nat.succ.inj (row.trans (by decide +kernel)),paints⟩

end Terminal

end TerminalOutput
