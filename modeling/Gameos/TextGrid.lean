import Mathlib.Algebra.GroupWithZero.Nat
import Mathlib.Data.List.Basic
import Mathlib.Data.List.Nodup

-- Text on a grid of so many columns: characters go from left to right, and to the next row where a
-- line ends or a row is full.
namespace TextGrid

variable {α : Type}

-- Where the next character goes.
def place (columns : Nat) (p : Nat × Nat) : Nat × Nat := if columns ≤ p.1 then (0,p.2 + 1) else p

def next [DecidableEq α] (newline : α) (columns : Nat) (c : α) (p : Nat × Nat) : Nat × Nat :=
  if c = newline then (0,p.2 + 1) else ((place columns p).1 + 1,(place columns p).2)

def cells [DecidableEq α] (newline : α) (columns : Nat) : List α → Nat × Nat → List (α × (Nat × Nat))
  | [],_ => []
  | c :: rest,p =>
    if c = newline then cells newline columns rest (next newline columns c p)
    else (c,place columns p) :: cells newline columns rest (next newline columns c p)

def ends [DecidableEq α] (newline : α) (columns : Nat) (text : List α) (p : Nat × Nat) : Nat × Nat :=
  text.foldl (fun p c => next newline columns c p) p

-- The place of a line's character by its index, and how many rows a line takes. Without a single
-- column each character has a row of its own, below the one the line starts in.
def column (columns k : Nat) : Nat := if columns = 0 then 0 else k % columns
def depth (columns k : Nat) : Nat := if columns = 0 then k + 1 else k / columns
def rows (columns length : Nat) : Nat := if columns = 0 then length + 1 else (length - 1) / columns + 1

def lineCells (columns row first : Nat) (line : List α) : List (α × (Nat × Nat)) :=
  line.mapIdx fun k c => (c,(column columns (first + k),row + depth columns (first + k)))

def layout (columns : Nat) : Nat → List (List α) → List (α × (Nat × Nat))
  | _,[] => []
  | row,line :: rest => lineCells columns row 0 line ++ layout columns (row + rows columns line.length) rest

def totalRows (columns : Nat) (lines : List (List α)) : Nat := (lines.map fun line => rows columns line.length).sum

section Steps
variable [DecidableEq α] {newline c : α} {columns : Nat} {p : Nat × Nat}

theorem next_newline (newLine : c = newline) : next newline columns c p = (0,p.2 + 1) := if_pos newLine

theorem next_other (other : c ≠ newline) :
    next newline columns c p = ((place columns p).1 + 1,(place columns p).2) := if_neg other

theorem ends_cons (text : List α) :
    ends newline columns (c :: text) p = ends newline columns text (next newline columns c p) := rfl

end Steps

theorem lineCells_cons (columns row first : Nat) (c : α) (line : List α) :
    lineCells columns row first (c :: line) =
      (c,(column columns first,row + depth columns first)) :: lineCells columns row (first + 1) line := by
  unfold lineCells
  rw [List.mapIdx_cons]
  simp only [Nat.add_zero,List.cons.injEq,true_and]
  congr 1
  funext k c
  rw [Nat.add_assoc,Nat.add_comm 1 k]

theorem place_within (columns : Nat) (p : Nat × Nat) : (place columns p).1 + 1 ≤ max 1 columns := by
  unfold place
  split
  · exact Nat.le_max_left ..
  · exact Nat.le_trans (Nat.lt_of_not_le ‹_›) (Nat.le_max_right ..)

section Lines
variable [DecidableEq α] {newline c : α} {columns row k : Nat} {text line : List α} {p : Nat × Nat}

-- The position after so many characters of a line.
def reached (columns row k : Nat) : Nat × Nat :=
  if k = 0 then (0,row) else if columns = 0 then (1,row + k) else ((k - 1) % columns + 1,row + (k - 1) / columns)

theorem div_step (k columns : Nat) (positive : 0 < columns) :
    (columns ≤ k % columns + 1 ∧ (k + 1) % columns = 0 ∧ (k + 1) / columns = k / columns + 1) ∨
      (k % columns + 1 < columns ∧ (k + 1) % columns = k % columns + 1 ∧ (k + 1) / columns = k / columns) := by
  have below := Nat.mod_lt k positive
  have split := Nat.div_add_mod k columns
  by_cases last : columns ≤ k % columns + 1
  · left
    have whole : k + 1 = columns * (k / columns + 1) := by rw [Nat.mul_add,Nat.mul_one]; omega
    refine ⟨last,?_,?_⟩
    · rw [whole,Nat.mul_mod_right]
    · rw [whole,Nat.mul_div_cancel_left _ positive]
  · right
    have within : k % columns + 1 < columns := Nat.lt_of_not_le last
    have sum : k + 1 = k % columns + 1 + columns * (k / columns) := by omega
    refine ⟨within,?_,?_⟩
    · rw [sum,Nat.add_mul_mod_self_left,Nat.mod_eq_of_lt within]
    · rw [sum,Nat.add_mul_div_left _ _ positive,Nat.div_eq_of_lt within,Nat.zero_add]

theorem place_reached (columns row k : Nat) : place columns (reached columns row k) = (column columns k,row + depth columns k) := by
  unfold place reached column depth
  by_cases none : columns = 0
  · subst none
    by_cases first : k = 0
    · subst first
      simp
    · simp only [if_neg first,if_true,Nat.zero_le]
      rw [Nat.add_assoc]
  · have positive := Nat.pos_of_ne_zero none
    cases k with
    | zero =>
        rw [if_pos rfl,if_neg none,if_neg none,if_neg (by omega),Nat.zero_mod,Nat.zero_div]
        rfl
    | succ k =>
        rw [if_neg (Nat.succ_ne_zero k),if_neg none,if_neg none,if_neg none,Nat.add_sub_cancel]
        rcases div_step k columns positive with ⟨last,column,depth⟩ | ⟨within,column,depth⟩
        · rw [if_pos last,column,depth,Nat.add_assoc]
        · rw [if_neg (Nat.not_le.mpr within),column,depth]

theorem next_reached (other : c ≠ newline) : next newline columns c (reached columns row k) = reached columns row (k + 1) := by
  rw [next_other other,place_reached]
  unfold reached column depth
  rw [if_neg (Nat.succ_ne_zero k),Nat.add_sub_cancel]
  split
  · rfl
  · rfl

theorem reached_rows (columns row k : Nat) : (reached columns row k).2 + 1 = row + rows columns k := by
  unfold reached rows
  cases k with
  | zero => split <;> simp
  | succ k =>
      rw [if_neg (Nat.succ_ne_zero k),Nat.add_sub_cancel]
      split
      · rfl
      · exact Nat.add_assoc ..

theorem splitOn_cons (newline c : α) (text : List α) : (c :: text).splitOn newline =
    if c = newline then [] :: text.splitOn newline else (text.splitOn newline).modifyHead (List.cons c) := by
  unfold List.splitOn
  rw [List.splitOnP_cons_eq_if_modifyHead]
  simp only [beq_iff_eq]

-- From the middle of a line.
theorem cells_from (newline : α) (columns : Nat) (text : List α) (row k : Nat) : ∃ line rest,text.splitOn newline = line :: rest ∧
    cells newline columns text (reached columns row k) =
      lineCells columns row k line ++ layout columns (row + rows columns (k + line.length)) rest ∧
    (ends newline columns text (reached columns row k)).2 + 1 =
      row + rows columns (k + line.length) + totalRows columns rest := by
  induction text generalizing row k with
  | nil => exact ⟨[],[],rfl,rfl,by rw [List.length_nil,Nat.add_zero]; exact reached_rows columns row k⟩
  | cons c text ih =>
      rw [splitOn_cons]
      unfold cells ends
      rw [List.foldl_cons]
      by_cases newLine : c = newline
      · have start : next newline columns c (reached columns row k) = reached columns (row + rows columns k) 0 := by
          rw [next_newline newLine,reached_rows]
          rfl
        obtain ⟨line,rest,split,same,last⟩ := ih (row + rows columns k) 0
        rw [if_pos newLine,if_pos newLine,start]
        refine ⟨[],text.splitOn newline,rfl,?_,?_⟩
        · rw [same,split,Nat.zero_add]
          rfl
        · rw [split]
          unfold ends at last
          rw [last,Nat.zero_add,List.length_nil,Nat.add_zero]
          unfold totalRows
          rw [List.map_cons,List.sum_cons,Nat.add_assoc]
      · obtain ⟨line,rest,split,same,last⟩ := ih row (k + 1)
        rw [if_neg newLine,if_neg newLine,next_reached newLine,place_reached]
        have length : k + (c :: line).length = k + 1 + line.length := by rw [List.length_cons]; omega
        refine ⟨c :: line,rest,by rw [split]; rfl,?_,?_⟩
        · rw [same,lineCells_cons,length]
          rfl
        · rw [length]
          exact last

-- Read as lines: each begins a row, and takes as many as it needs.
theorem cells_layout (newline : α) (columns row : Nat) (text : List α) :
    cells newline columns text (0,row) = layout columns row (text.splitOn newline) ∧
      (ends newline columns text (0,row)).2 + 1 = row + totalRows columns (text.splitOn newline) := by
  obtain ⟨line,rest,split,same,last⟩ := cells_from newline columns text row 0
  rw [Nat.zero_add] at same last
  rw [split]
  refine ⟨same,last.trans ?_⟩
  unfold totalRows
  rw [List.map_cons,List.sum_cons,Nat.add_assoc]

end Lines

section Order
variable [DecidableEq α] {newline c : α} {columns : Nat} {p q : Nat × Nat} {text : List α}

-- In reading order.
def Before (p q : Nat × Nat) : Prop := p.2 < q.2 ∨ (p.2 = q.2 ∧ p.1 < q.1)

theorem place_ahead (columns : Nat) (p : Nat × Nat) : place columns p = p ∨ Before p (place columns p) := by
  unfold place Before
  split
  · exact .inr (.inl (Nat.lt_succ_self _))
  · exact .inl rfl

theorem next_ahead (newline c : α) (columns : Nat) (p : Nat × Nat) : Before p (next newline columns c p) := by
  have ahead := place_ahead columns p
  unfold next Before at *
  split
  · exact .inl (Nat.lt_succ_self _)
  · rcases ahead with same | above | ⟨row,left⟩
    · rw [same]
      exact .inr ⟨rfl,Nat.lt_succ_self _⟩
    · exact .inl above
    · exact .inr ⟨row,Nat.lt_succ_of_lt left⟩

theorem Before.trans (one : Before p q) (two : Before q r) : Before p r := by
  unfold Before at *
  omega

theorem cells_ahead (text : List α) (p : Nat × Nat) : ∀ cell ∈ cells newline columns text p,cell.2 = p ∨ Before p cell.2 := by
  induction text generalizing p with
  | nil => exact fun cell here => absurd here List.not_mem_nil
  | cons c text ih =>
      intro cell here
      have ahead := next_ahead newline c columns p
      have later (here : cell ∈ cells newline columns text (next newline columns c p)) : cell.2 = p ∨ Before p cell.2 := by
        rcases ih _ cell here with same | further
        · rw [same]
          exact .inr ahead
        · exact .inr (ahead.trans further)
      unfold cells at here
      split at here
      · exact later here
      · rcases List.mem_cons.mp here with rfl | here
        · exact place_ahead columns p
        · exact later here

theorem cells_ordered (text : List α) (p : Nat × Nat) : (cells newline columns text p).Pairwise fun a b => Before a.2 b.2 := by
  induction text generalizing p with
  | nil => exact .nil
  | cons c text ih =>
      unfold cells
      split
      · exact ih _
      · rename_i other
        refine List.pairwise_cons.mpr ⟨fun cell here => ?_,ih _⟩
        have stepped : Before (place columns p) (next newline columns c p) := by
          rw [next_other other]
          exact .inr ⟨rfl,Nat.lt_succ_self _⟩
        rcases cells_ahead text _ cell here with same | further
        · rw [same]
          exact stepped
        · exact stepped.trans further

-- A row has no more characters than columns, or one.
theorem cells_within (text : List α) (p : Nat × Nat) : ∀ cell ∈ cells newline columns text p,cell.2.1 < max 1 columns := by
  induction text generalizing p with
  | nil => exact fun cell here => absurd here List.not_mem_nil
  | cons c text ih =>
      intro cell here
      unfold cells at here
      split at here
      · exact ih _ cell here
      · rcases List.mem_cons.mp here with rfl | here
        · exact place_within columns p
        · exact ih _ cell here

-- The characters placed are those that end no line.
theorem exists_cell (holds : α → Prop) (text : List α) (p : Nat × Nat) :
    (∃ cell ∈ cells newline columns text p,holds cell.1) ↔ ∃ c ∈ text,c ≠ newline ∧ holds c := by
  induction text generalizing p with
  | nil => simp only [cells,List.not_mem_nil,false_and,exists_false]
  | cons c text ih =>
      unfold cells
      by_cases newLine : c = newline
      · rw [if_pos newLine,ih,List.exists_mem_cons_iff]
        exact ⟨.inr,fun either => either.resolve_left fun here => here.1 newLine⟩
      · rw [if_neg newLine,List.exists_mem_cons_iff,List.exists_mem_cons_iff,ih]
        exact or_congr_left ⟨fun here => ⟨newLine,here⟩,fun here => here.2⟩

theorem ends_ahead (newline : α) (columns : Nat) (text : List α) (p : Nat × Nat) : p.2 ≤ (ends newline columns text p).2 := by
  induction text generalizing p with
  | nil => exact Nat.le_refl _
  | cons c text ih =>
      have ahead := next_ahead newline c columns p
      have later := ih (next newline columns c p)
      unfold ends at *
      rw [List.foldl_cons]
      unfold Before at ahead
      omega

theorem cells_above (text : List α) (p : Nat × Nat) :
    ∀ cell ∈ cells newline columns text p,cell.2.2 ≤ (ends newline columns text p).2 := by
  induction text generalizing p with
  | nil => exact fun cell here => absurd here List.not_mem_nil
  | cons c text ih =>
      intro cell here
      rw [ends_cons]
      unfold cells at here
      split at here
      · exact ih _ cell here
      · rename_i other
        rcases List.mem_cons.mp here with rfl | here
        · have later := ends_ahead newline columns text (next newline columns c p)
          rw [next_other other] at later ⊢
          exact later
        · exact ih _ cell here

end Order

section Narrow
variable {columns row : Nat}

-- Lines that fit take one row each.
theorem layout_fits (columns : Nat) (lines : List (List α)) (fits : ∀ line ∈ lines,line.length ≤ columns) (row : Nat) :
    layout columns row lines = (lines.zipIdx row).flatMap (fun line => line.1.mapIdx fun k c => (c,(k,line.2))) ∧
      totalRows columns lines = lines.length := by
  induction lines generalizing row with
  | nil => exact ⟨rfl,rfl⟩
  | cons line lines ih =>
      have short := fits line List.mem_cons_self
      have one : rows columns line.length = 1 := by
        unfold rows
        split
        · omega
        · rw [Nat.div_eq_of_lt (by omega)]
      obtain ⟨later,total⟩ := ih (fun line member => fits line (List.mem_cons_of_mem _ member)) (row + 1)
      constructor
      · have here : lineCells columns row 0 line = line.mapIdx fun k c => (c,(k,row)) := by
          unfold lineCells
          refine List.ext_getElem (by simp) fun k inside _ => ?_
          have within : k < columns := by
            rw [List.length_mapIdx] at inside
            omega
          simp only [List.getElem_mapIdx,Nat.zero_add,column,depth,if_neg (by omega : columns ≠ 0),Nat.mod_eq_of_lt within,
            Nat.div_eq_of_lt within,Nat.add_zero]
        rw [layout,one,later,here,List.zipIdx_cons,List.flatMap_cons]
      · unfold totalRows at *
        rw [List.map_cons,List.sum_cons,one,total,List.length_cons,Nat.add_comm]

theorem mem_narrow {lines : List (List α)} {cell : α × (Nat × Nat)} :
    cell ∈ (lines.zipIdx 0).flatMap (fun line => line.1.mapIdx fun k c => (c,(k,line.2))) ↔
      ∃ letters,lines[cell.2.2]? = some letters ∧ letters[cell.2.1]? = some cell.1 := by
  rw [List.mem_flatMap]
  constructor
  · rintro ⟨⟨line,row⟩,at_row,here⟩
    obtain ⟨k,inside,rfl⟩ := List.mem_mapIdx.mp here
    exact ⟨line,List.mem_zipIdx_iff_getElem?.mp at_row,List.getElem?_eq_getElem inside⟩
  · rintro ⟨line,at_row,here⟩
    obtain ⟨inside,same⟩ := List.getElem?_eq_some_iff.mp here
    exact ⟨(line,cell.2.2),List.mem_zipIdx_iff_getElem?.mpr at_row,List.mem_mapIdx.mpr ⟨cell.2.1,inside,by rw [same]⟩⟩

end Narrow

end TextGrid
