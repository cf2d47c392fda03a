import Gameos.PointwiseLoops
import Mathlib.Data.List.ProdSigma
import Mathlib.Logic.Function.Basic
import Mathlib.Tactic.Ring

-- layers, rows and columns of cells in one array, layer by layer
structure Grid3 (α : Type) where
  rows : Nat
  cols : Nat
  layers : Nat
  default_value : α
  backing_array : List α
  sized : backing_array.length = rows*cols*layers

namespace Grid3
open PointwiseLoops

variable {α : Type} {g h : Grid3 α} {row col layer row' col' layer' : Nat} {p : Nat × Nat}

def new (rows cols layers : Nat) (default_value : α) : Grid3 α :=
  ⟨rows,cols,layers,default_value,List.replicate (rows*cols*layers) default_value,List.length_replicate⟩

def cells_in_layer (g : Grid3 α) : Nat := g.rows*g.cols

def backing_array_index_for (g : Grid3 α) (row col layer : Nat) : Nat := g.cells_in_layer*layer + row*g.cols + col

-- at(row, col, layer)
def value (g : Grid3 α) (row col layer : Nat) : α :=
  g.backing_array.getD (g.backing_array_index_for row col layer) g.default_value

def set (g : Grid3 α) (row col layer : Nat) (value : α) : Grid3 α :=
  {g with backing_array := g.backing_array.set (g.backing_array_index_for row col layer) value,
          sized := by rw [List.length_set,g.sized]}

def clear (g : Grid3 α) (row col layer : Nat) : Grid3 α := g.set row col layer g.default_value

def copy (g : Grid3 α) (from_row from_col from_layer to_row to_col to_layer : Nat) : Grid3 α :=
  g.set to_row to_col to_layer (g.value from_row from_col from_layer)

-- The order of the two loops over a layer.
def positions (g : Grid3 α) : List (Nat × Nat) := (List.range g.rows) ×ˢ (List.range g.cols)

-- `skip` may read the grid the loop is writing.
def clear_layer (g : Grid3 α) (layer : Nat) (skip : Grid3 α → Nat → Nat → Nat → Bool) : Grid3 α :=
  g.positions.foldl (fun g p => if skip g p.1 p.2 layer then g else g.clear p.1 p.2 layer) g

def copy_layer (g : Grid3 α) (from_layer to_layer : Nat) (skip : Grid3 α → Nat → Nat → Nat → Bool) : Grid3 α :=
  g.positions.foldl (fun g p => if skip g p.1 p.2 from_layer then g else g.copy p.1 p.2 from_layer p.1 p.2 to_layer) g

def layer_filled_with [DecidableEq α] (g : Grid3 α) (layer : Nat) (value : α) : Bool :=
  (List.range' (layer*g.cells_in_layer) g.cells_in_layer).all fun index =>
    decide (g.backing_array.getD index g.default_value = value)

def can_move_lower [DecidableEq α] (g : Grid3 α) (row col layer : Nat) : Bool :=
  if layer + 1 ≥ g.layers then false else decide (g.value row col (layer+1) = g.default_value)

-- Inside the grid.
def Within (g : Grid3 α) (row col layer : Nat) : Prop := row < g.rows ∧ col < g.cols ∧ layer < g.layers

-- Of the same shape.
def Alike (g h : Grid3 α) : Prop :=
  g.rows = h.rows ∧ g.cols = h.cols ∧ g.layers = h.layers ∧ g.default_value = h.default_value

theorem Alike.refl (g : Grid3 α) : Alike g g := ⟨rfl,rfl,rfl,rfl⟩

theorem Alike.trans {k : Grid3 α} (one : Alike g h) (two : Alike h k) : Alike g k :=
  ⟨one.1.trans two.1,one.2.1.trans two.2.1,one.2.2.1.trans two.2.2.1,one.2.2.2.trans two.2.2.2⟩

theorem set_alike (g : Grid3 α) (row col layer : Nat) (value : α) : Alike (g.set row col layer value) g :=
  ⟨rfl,rfl,rfl,rfl⟩

theorem Alike.within (alike : Alike g h) : g.Within row col layer ↔ h.Within row col layer := by
  unfold Within
  rw [alike.1,alike.2.1,alike.2.2.1]

-- Mixed-radix digits are unique.
theorem digits_unique {a a' b b' n : Nat} (small : b < n) (small' : b' < n) (same : n*a+b = n*a'+b') : a = a' ∧ b = b' := by
  have quotient : (n*a+b)/n = (n*a'+b')/n := by rw [same]
  have positive : 0 < n := by omega
  rw [Nat.mul_add_div positive,Nat.mul_add_div positive,Nat.div_eq_of_lt small,Nat.div_eq_of_lt small'] at quotient
  have first : a = a' := quotient
  subst first
  exact ⟨rfl,Nat.add_left_cancel same⟩

theorem row_bound {row col n k : Nat} (row_lt : row < n) (col_lt : col < k) : row*k+col < n*k := by
  have next : (row+1)*k ≤ n*k := Nat.mul_le_mul_right k row_lt
  rw [Nat.add_mul] at next
  omega

theorem index_unique (here : g.Within row col layer) (there : g.Within row' col' layer')
    (same : g.backing_array_index_for row col layer = g.backing_array_index_for row' col' layer') :
    row = row' ∧ col = col' ∧ layer = layer' := by
  unfold backing_array_index_for cells_in_layer at same
  rw [Nat.add_assoc,Nat.add_assoc] at same
  obtain ⟨layers,rest⟩ := digits_unique (row_bound here.1 here.2.1) (row_bound there.1 there.2.1) same
  rw [Nat.mul_comm row,Nat.mul_comm row'] at rest
  obtain ⟨rows,cols⟩ := digits_unique here.2.1 there.2.1 rest
  exact ⟨rows,cols,layers⟩

theorem index_lt (here : g.Within row col layer) : g.backing_array_index_for row col layer < g.backing_array.length := by
  have inside := row_bound here.1 here.2.1
  have next : g.rows*g.cols*(layer+1) ≤ g.rows*g.cols*g.layers := Nat.mul_le_mul_left _ here.2.2
  rw [g.sized]
  unfold backing_array_index_for cells_in_layer
  rw [Nat.mul_add] at next
  omega

theorem value_set (here : g.Within row col layer) (there : g.Within row' col' layer') (v : α) :
    (g.set row col layer v).value row' col' layer' =
      if row' = row ∧ col' = col ∧ layer' = layer then v else g.value row' col' layer' := by
  unfold value set
  show (g.backing_array.set (g.backing_array_index_for row col layer) v).getD
    (g.backing_array_index_for row' col' layer') g.default_value = _
  rw [List.getD_eq_getElem?_getD,List.getElem?_set]
  by_cases same : row' = row ∧ col' = col ∧ layer' = layer
  · obtain ⟨rfl,rfl,rfl⟩ := same
    rw [if_pos rfl,if_pos (index_lt here),if_pos ⟨rfl,rfl,rfl⟩]
    rfl
  · rw [if_neg same,if_neg]
    · rfl
    · intro equal
      obtain ⟨rows,cols,layers⟩ := index_unique here there equal
      exact same ⟨rows.symm,cols.symm,layers.symm⟩

-- Cells are all there is to a grid.
theorem value_ext (alike : Alike g h) (same : ∀ row col layer, g.Within row col layer → g.value row col layer = h.value row col layer) :
    g = h := by
  obtain ⟨rows,cols,layers,default_value,cells,sized⟩ := g
  obtain ⟨rows',cols',layers',default_value',cells',sized'⟩ := h
  obtain ⟨rfl,rfl,rfl,rfl⟩ := alike
  have equal : cells = cells' := by
    refine List.ext_getElem (sized.trans sized'.symm) fun index inside inside' => ?_
    have bound : index < rows*cols*layers := sized ▸ inside
    have area : 0 < rows*cols := Nat.pos_of_mul_pos_right (Nat.zero_lt_of_lt bound)
    have width : 0 < cols := Nat.pos_of_mul_pos_left area
    have within : Within (⟨rows,cols,layers,default_value,cells,sized⟩ : Grid3 α) (index % (rows*cols) / cols)
        (index % (rows*cols) % cols) (index / (rows*cols)) := by
      refine ⟨?_,Nat.mod_lt _ width,Nat.div_lt_of_lt_mul bound⟩
      exact Nat.div_lt_of_lt_mul (Nat.mul_comm rows cols ▸ Nat.mod_lt _ area)
    have position : rows*cols*(index / (rows*cols)) + index % (rows*cols) / cols * cols + index % (rows*cols) % cols = index := by
      rw [Nat.add_assoc,Nat.div_add_mod',Nat.div_add_mod]
    have read := same _ _ _ within
    unfold value backing_array_index_for cells_in_layer at read
    dsimp only at read
    rw [position,List.getD_eq_getElem?_getD,List.getD_eq_getElem?_getD,List.getElem?_eq_getElem inside,
      List.getElem?_eq_getElem inside'] at read
    exact read
  subst equal
  rfl

theorem new_value (rows cols layers : Nat) (d : α) (row col layer : Nat) :
    (new rows cols layers d).value row col layer = d := by
  unfold value new
  rw [List.getD_eq_getElem?_getD,List.getElem?_replicate]
  split <;> rfl

theorem positions_nodup (g : Grid3 α) : g.positions.Nodup := List.nodup_range.product List.nodup_range

theorem mem_positions (g : Grid3 α) (p : Nat × Nat) : p ∈ g.positions ↔ p.1 < g.rows ∧ p.2 < g.cols := by
  obtain ⟨row,col⟩ := p
  simp [positions]

-- The cells over one another at a row and a column.
def column (g : Grid3 α) (p : Nat × Nat) (layer : Nat) : α :=
  if layer < g.layers then g.value p.1 p.2 layer else g.default_value

theorem column_value (inside : layer < g.layers) (p : Nat × Nat) : g.column p layer = g.value p.1 p.2 layer :=
  if_pos inside

theorem column_set (here : g.Within row col layer) (there : p.1 < g.rows ∧ p.2 < g.cols) (v : α) :
    (g.set row col layer v).column p =
      if p = (row,col) then Function.update (g.column p) layer v else g.column p := by
  funext l
  unfold column
  show (if l < g.layers then _ else g.default_value) = _
  by_cases inside : l < g.layers
  · rw [if_pos inside,value_set here ⟨there.1,there.2,inside⟩]
    by_cases same : p = (row,col)
    · subst same
      by_cases equal : l = layer
      · subst equal; simp
      · simp [equal,inside]
    · have apart : ¬ (p.1 = row ∧ p.2 = col ∧ l = layer) := fun equal => same (Prod.ext equal.1 equal.2.1)
      rw [if_neg apart,if_neg same,if_pos inside]
  · have off : l ≠ layer := fun equal => inside (by rw [equal]; exact here.2.2)
    rw [if_neg inside]
    split
    · rw [Function.update_of_ne off,if_neg inside]
    · exact (if_neg inside).symm

-- A loop over the positions that, unless skipped, writes one cell of the column
-- at the position.
theorem layer_loop (body : Grid3 α → Nat × Nat → Grid3 α) (layer : Nat) (inside : layer < g.layers)
    (skips : Nat × Nat → (Nat → α) → Bool) (written : (Nat → α) → α)
    (step : ∀ (s : Grid3 α) (p : Nat × Nat), Alike s g → p.1 < g.rows ∧ p.2 < g.cols →
      body s p = if skips p (s.column p) then s else s.set p.1 p.2 layer (written (s.column p))) :
    Alike (g.positions.foldl body g) g ∧ ∀ p : Nat × Nat, p.1 < g.rows ∧ p.2 < g.cols →
      (g.positions.foldl body g).column p =
        if skips p (g.column p) then g.column p else Function.update (g.column p) layer (written (g.column p)) := by
  have within : ∀ (s : Grid3 α) (p : Nat × Nat), Alike s g → p.1 < g.rows ∧ p.2 < g.cols → s.Within p.1 p.2 layer := by
    intro s p alike here
    exact alike.within.mpr ⟨here.1,here.2,inside⟩
  have here_of : ∀ (s : Grid3 α) (p : Nat × Nat), Alike s g → p.1 < g.rows ∧ p.2 < g.cols → p.1 < s.rows ∧ p.2 < s.cols := by
    intro s p alike here
    rw [alike.1,alike.2.1]
    exact here
  have loc : Local body column
      (fun p column => if skips p column then column else Function.update column layer (written column))
      (fun s => Alike s g) (fun p => p.1 < g.rows ∧ p.2 < g.cols) := by
    refine ⟨?_,?_,?_⟩
    · intro s p alike here
      rw [step s p alike here]
      split
      · exact alike
      · exact (set_alike s _ _ _ _).trans alike
    · intro s p alike here
      rw [step s p alike here]
      split
      · rfl
      · rw [column_set (within s p alike here) (here_of s p alike here),if_pos rfl]
    · intro s p p' alike here there apart
      rw [step s p alike here]
      split
      · rfl
      · rw [column_set (within s p alike here) (here_of s p' alike there),if_neg apart]
  have all : ∀ p ∈ g.positions, p.1 < g.rows ∧ p.2 < g.cols := fun p member => (mem_positions g p).mp member
  refine ⟨loc.valid_loop all (Alike.refl g),?_⟩
  intro p here
  rw [loc.loop (positions_nodup g) all (Alike.refl g) here,if_pos ((mem_positions g p).mpr here)]

theorem clear_layer_column (inside : layer < g.layers) (skip : Grid3 α → Nat → Nat → Nat → Bool)
    (skips : Nat × Nat → (Nat → α) → Bool)
    (agrees : ∀ s (p : Nat × Nat), Alike s g → p.1 < g.rows ∧ p.2 < g.cols → skip s p.1 p.2 layer = skips p (s.column p)) :
    Alike (g.clear_layer layer skip) g ∧ ∀ p : Nat × Nat, p.1 < g.rows ∧ p.2 < g.cols →
      (g.clear_layer layer skip).column p =
        if skips p (g.column p) then g.column p else Function.update (g.column p) layer g.default_value := by
  refine layer_loop _ layer inside skips (fun _ => g.default_value) ?_
  intro s p alike here
  rw [agrees s p alike here,clear,alike.2.2.2]

theorem copy_layer_column {from_layer to_layer : Nat} (source : from_layer < g.layers) (target : to_layer < g.layers)
    (skip : Grid3 α → Nat → Nat → Nat → Bool) (skips : Nat × Nat → (Nat → α) → Bool)
    (agrees : ∀ s (p : Nat × Nat), Alike s g → p.1 < g.rows ∧ p.2 < g.cols → skip s p.1 p.2 from_layer = skips p (s.column p)) :
    Alike (g.copy_layer from_layer to_layer skip) g ∧ ∀ p : Nat × Nat, p.1 < g.rows ∧ p.2 < g.cols →
      (g.copy_layer from_layer to_layer skip).column p =
        if skips p (g.column p) then g.column p else Function.update (g.column p) to_layer (g.column p from_layer) := by
  refine layer_loop _ to_layer target skips (fun column => column from_layer) ?_
  intro s p alike here
  rw [agrees s p alike here,copy,column_value (by rw [alike.2.2.1]; exact source)]

end Grid3
